import Wanbond.Bind.Demux
import Wanbond.Telemetry.Adoption

/-!
# Restarts of the peer

A peer runs as a sequence of boots, each of which starts when the one before has
ended.  The probes and echoes that a boot has sent may arrive at any time later,
any number of times and in any order, on any path.  This end has one remote
epoch, which moves to another boot only on a probe that the reflector adopts; the
reflector adopts by path.

A challenge that a boot has learned stays live on its path until some session is
adopted there.  So a probe of a boot that has ended is adopted on a path on which
the boot had not been adopted, even if a later boot was adopted on another path.
If the boot had been adopted on each path whose live challenge its probes carry,
when the remote epoch left it, then the epoch never returns to it.
-/

namespace Wanbond.Bind

open Wanbond.Bond (Epoch Bytes Transport parseHello)
open Wanbond.Frame (Probe)
open Wanbond.Support
open Wanbond.Telemetry

/-! ## One end -/

theorem boot_of_acceptsRemote {t : Transport} {epoch : Epoch} {adopted : Bool}
    (h : t.acceptsRemote epoch adopted = true) :
    epoch.boot = t.remote.boot ∨ t.remote.boot = 0 ∨ adopted = true := by
  unfold Transport.acceptsRemote at h
  split_ifs at h with _ _ _ hadopted
  simp only [Bool.not_eq_true', not_and, Bool.not_eq_false] at hadopted
  by_cases hzero : t.remote.boot = 0
  · exact .inr (.inl hzero)
  · by_cases hsame : epoch.boot = t.remote.boot
    · exact .inl hsame
    · exact .inr (.inr (hadopted hzero hsame))

namespace PeerState

variable {Addr : Type} {p : PeerState Addr} {f : Probe}

/-- The remote epoch of the peer's transport. -/
def remote (p : PeerState Addr) : Epoch :=
  (p.adaptive.map fun a => a.transport.remote).getD Epoch.zero

theorem reflector_learn (p : PeerState Addr) (v : PeerView Addr) (src : Addr)
    (payload : Bytes) (adopted : Bool) (rd : Readings Addr) :
    (p.learn v src payload adopted rd).reflector = p.reflector := by
  unfold learn
  split <;> rfl

/-- The boot changes only to that of a hello, and only from none or for a probe
that was adopted. -/
theorem boot_learn (p : PeerState Addr) (v : PeerView Addr) (src : Addr)
    (payload : Bytes) (adopted : Bool) (rd : Readings Addr) :
    (p.learn v src payload adopted rd).remote.boot = p.remote.boot ∨
      ∃ hello, parseHello payload = some hello ∧
        (p.learn v src payload adopted rd).remote = hello.1 ∧
        (p.remote.boot = 0 ∨ adopted = true) := by
  unfold learn
  split
  · exact .inl rfl
  next a ha =>
    have hremote : p.remote = a.transport.remote := by
      rw [remote, ha]
      rfl
    rcases a.remote_learn p.resequencer v.path v.writesClosed src payload
      adopted rd.rtt rd.now rd.now with
      hsame | ⟨epoch, remotePath, hparse, haccepts, hnew⟩
    · exact .inl (by rw [hremote, ← hsame]; rfl)
    rw [hremote]
    rcases boot_of_acceptsRemote haccepts with hboot | hcause
    · exact .inl (by rw [← hboot, ← hnew]; rfl)
    · exact .inr ⟨_, hparse, hnew, hcause⟩

variable [DecidableEq Addr]

/-- What a probe does to the reflector, and which challenge the echo carries. -/
theorem reflector_dispatch (p : PeerState Addr) (k : ℕ) (v : PeerView Addr)
    (f : Probe) (length : ℕ) (src : Addr) (rd : Readings Addr) :
    let (p', echo) := p.dispatchInbound k v (.probe f) length src rd
    if f.isEcho then p'.reflector = p.reflector ∧ echo = none
    else p'.reflector = (p.reflector.acceptProbe f).1 ∧
      (echo.map Probe.challenge).toList =
        Reflector.issuedBy (p.reflector.acceptProbe f).2 := by
  unfold dispatchInbound
  dsimp only
  split_ifs with hecho
  · refine ⟨?_, rfl⟩
    unfold handleEcho
    split
    · rfl
    · split
      · rfl
      · exact reflector_learn _ _ _ _ _ _
  unfold handleProbe
  rcases haccept : p.reflector.acceptProbe f with ⟨reflector, e | accepted⟩
  · exact ⟨rfl, rfl⟩
  refine ⟨?_, rfl⟩
  dsimp only
  split_ifs
  · rfl
  · exact reflector_learn _ _ _ _ _ _

/-- A probe moves the remote epoch to another boot only if it is adopted, or if
there was none. -/
theorem boot_dispatch (p : PeerState Addr) (k : ℕ) (v : PeerView Addr)
    (f : Probe) (length : ℕ) (src : Addr) (rd : Readings Addr) :
    let p' := (p.dispatchInbound k v (.probe f) length src rd).1
    p'.remote.boot = p.remote.boot ∨
      ∃ hello, parseHello f.payload = some hello ∧ p'.remote = hello.1 ∧
        (p.remote.boot = 0 ∨ f.isEcho = false ∧
          ∃ a, (p.reflector.acceptProbe f).2 = .ok a ∧
            a.acceptance = .adopted) := by
  unfold dispatchInbound
  dsimp only
  split_ifs with hecho
  · unfold handleEcho
    split
    · exact .inl rfl
    next prober hprober =>
      split
      · exact .inl rfl
      next fresh heq =>
        -- an echo is learned without an adoption
        rcases boot_learn _ _ src fresh.payload false rd with
          hsame | ⟨hello, hparse, hnew, hzero | hadopted⟩
        · exact .inl hsame
        · rw [Prober.handleEchoProbe_ok heq] at hparse hnew ⊢
          exact .inr ⟨hello, hparse, hnew, .inl hzero⟩
        · cases hadopted
  · unfold handleProbe
    obtain ⟨reflector, reply, heq, hhandled⟩ := p.reflector.acceptProbe_handled f
    rw [heq]
    rcases reply with e | accepted
    · exact .inl rfl
    dsimp only
    split_ifs with hbootstrap
    · exact .inl rfl
    rw [hhandled.payload]
    rcases boot_learn _ _ src f.payload
      (decide (accepted.acceptance = .adopted)) rd with
      hsame | ⟨hello, hparse, hnew, hzero | hadopted⟩
    · exact .inl hsame
    · exact .inr ⟨hello, hparse, hnew, .inl hzero⟩
    · exact .inr ⟨hello, hparse, hnew, .inr ⟨Bool.eq_false_iff.mpr hecho,
        accepted, rfl, of_decide_eq_true hadopted⟩⟩

end PeerState

/-! ## The exchange -/

/-- This end, the challenges it has sent, and the boots of the peer: the one that
is alive, and the frames they have created, each with its boot. -/
structure Exchange (Addr : Type) where
  peer : PeerState Addr
  issued : List UInt64
  alive : ℕ
  created : List (ℕ × Probe)

namespace Exchange

variable {Addr : Type}

/-- The peer restarts or creates a probe or an echo, the `n`-th frame arrives on
the `k`-th view, or this end does something else. -/
inductive Event (Addr : Type)
  | restart
  | create (f : Probe)
  | deliver (n k length : ℕ) (src : Addr) (rd : Readings Addr)
  | other (peer : PeerState Addr)

variable [DecidableEq Addr]

def step (w : Exchange Addr) : Event Addr → Exchange Addr
  | .restart => { w with alive := w.alive + 1 }
  | .create f => { w with created := w.created ++ [(w.alive, f)] }
  | .deliver n k length src rd =>
    match w.created[n]?, w.peer.views[k]? with
    | some (_, f), some v =>
      let (peer, echo) :=
        w.peer.dispatchInbound k v (.probe f) length src rd
      { w with
        peer
        issued := w.issued ++ (echo.map Probe.challenge).toList }
    | _, _ => w
  | .other peer => { w with peer }

def run (w : Exchange Addr) (events : List (Event Addr)) : Exchange Addr :=
  events.foldl step w

/-- The boot that the remote epoch is of. -/
def boot (w : Exchange Addr) : ℕ := w.peer.remote.boot

/-- The peer is honest: a new boot has a session of its own, and the frames of a
boot carry its session and its hello, and a challenge that was sent to it.  The
random source does not fail, and what this end does otherwise leaves its
reflector and its remote epoch. -/
def Honest (boots : ℕ → UInt64) (w : Exchange Addr) : Event Addr → Prop
  | .restart =>
    boots (w.alive + 1) ≠ 0 ∧
      ∀ i, i ≤ w.alive → boots i ≠ boots (w.alive + 1)
  | .create f =>
    (f.isEcho = false → f.sessionID = boots w.alive ∧
      (f.challenge = 0 ∨ f.challenge ∈ w.issued)) ∧
    ∀ hello, parseHello f.payload = some hello →
      hello.1.boot = (boots w.alive).toNat
  | .deliver n _ _ _ _ =>
    ∀ c, w.created[n]? = some c → c.2.isEcho = false →
      (w.peer.reflector.acceptProbe c.2).2 ≠ .error .drawChallenge
  | .other peer =>
    peer.reflector = w.peer.reflector ∧ peer.remote = w.peer.remote

/-- The boot `i` has been adopted on each path whose live challenge one of its
probes carries. -/
def Settled (boots : ℕ → UInt64) (i : ℕ) (w : Exchange Addr) : Prop :=
  ∀ f, (i, f) ∈ w.created → f.isEcho = false →
    w.peer.reflector.challenge f.pathID = some f.challenge →
    w.peer.reflector.session f.pathID = some (boots i)

/-- If the event makes the remote epoch leave a boot for a later one, the boot is
settled. -/
def Clean (boots : ℕ → UInt64) (w : Exchange Addr) (e : Event Addr) : Prop :=
  ∀ i j, i < j → j ≤ w.alive → w.boot = (boots i).toNat →
    (w.step e).boot = (boots j).toNat → Settled boots i w

/-! ## What holds of every exchange -/

section Invariant

variable {boots : ℕ → UInt64} {w w' : Exchange Addr} {i j : ℕ} {f : Probe}

/-- The frame was created by an honest boot. -/
structure Genuine (boots : ℕ → UInt64) (w : Exchange Addr) (i : ℕ) (f : Probe) :
    Prop where
  boot_le : i ≤ w.alive
  session : f.isEcho = false → f.sessionID = boots i
  challenge : f.isEcho = false → f.challenge = 0 ∨ f.challenge ∈ w.issued
  hello : ∀ hello, parseHello f.payload = some hello →
    hello.1.boot = (boots i).toNat

/-- The boots that have started have sessions of their own. -/
structure Started (boots : ℕ → UInt64) (w : Exchange Addr) : Prop where
  nonzero : ∀ i, i ≤ w.alive → boots i ≠ 0
  distinct : ∀ i j, i ≤ w.alive → j ≤ w.alive → boots i = boots j → i = j

/-- The invariant: sessions are distinct, challenges are fresh, and frames are
genuine. -/
structure Base (boots : ℕ → UInt64) (w : Exchange Addr) : Prop where
  started : Started boots w
  fresh : Reflector.Fresh w.issued w.peer.reflector
  genuine : ∀ i f, (i, f) ∈ w.created → Genuine boots w i f

/-- A frame arrives: what it does to the reflector, and to the remote epoch. -/
structure Arrives (boots : ℕ → UInt64) (w : Exchange Addr) (i : ℕ) (f : Probe)
    (w' : Exchange Addr) : Prop where
  created : w'.created = w.created
  alive : w'.alive = w.alive
  reflector :
    w'.peer.reflector = w.peer.reflector ∧ w'.issued = w.issued ∨
      ∃ reply, Reflector.Handled w.peer.reflector f w'.peer.reflector reply ∧
        reply ≠ .error .drawChallenge ∧
        w'.issued = w.issued ++ Reflector.issuedBy reply
  boot : w'.boot = w.boot ∨ w'.boot = (boots i).toNat ∧
    (w.boot = 0 ∨ f.isEcho = false ∧
      ∃ r' a, Reflector.Handled w.peer.reflector f r' (.ok a) ∧
        a.acceptance = .adopted)

omit [DecidableEq Addr] in
theorem Genuine.mono (h : Genuine boots w i f) (halive : w.alive ≤ w'.alive)
    (hissued : ∀ c ∈ w.issued, c ∈ w'.issued) : Genuine boots w' i f :=
  ⟨h.boot_le.trans halive, h.session,
    fun hecho => (h.challenge hecho).imp_right (hissued _), h.hello⟩

theorem deliver_cases (hbase : Base boots w) {n k length : ℕ} {src : Addr}
    {rd : Readings Addr} (hhonest : w.Honest boots (.deliver n k length src rd)) :
    w.step (.deliver n k length src rd) = w ∨
      ∃ i f, (i, f) ∈ w.created ∧
        Arrives boots w i f (w.step (.deliver n k length src rd)) := by
  simp only [step]
  split
  next i f v hn hk =>
    have hmem : (i, f) ∈ w.created := List.mem_of_getElem? hn
    refine .inr ⟨i, f, hmem, ?_⟩
    have hreflector := w.peer.reflector_dispatch k v f length src rd
    have hboot := w.peer.boot_dispatch k v f length src rd
    generalize w.peer.dispatchInbound k v (.probe f) length src rd = out
      at hreflector hboot ⊢
    obtain ⟨peer, echo⟩ := out
    obtain ⟨r', reply, heq, hhandled⟩ := w.peer.reflector.acceptProbe_handled f
    have hdrawn := hhonest _ hn
    rw [heq] at hreflector hboot hdrawn
    refine ⟨rfl, rfl, ?_, ?_⟩
    · split_ifs at hreflector with hecho
      · obtain ⟨hsame, rfl⟩ := hreflector
        exact .inl ⟨hsame, by simp⟩
      · obtain ⟨rfl, hissued⟩ := hreflector
        exact .inr ⟨reply, hhandled, hdrawn (Bool.eq_false_iff.mpr hecho),
          by rw [hissued]⟩
    rcases hboot with hsame | ⟨hello, hparse, hnew, hcause⟩
    · exact .inl hsame
    refine .inr ⟨?_, hcause.imp_right ?_⟩
    · exact (congrArg Epoch.boot hnew).trans
        ((hbase.genuine i f hmem).hello hello hparse)
    · rintro ⟨hecho, a, hreply, ha⟩
      subst hreply
      exact ⟨hecho, r', a, hhandled, ha⟩
  · exact .inl rfl

omit [DecidableEq Addr] in
theorem Started.congr (h : Started boots w) (halive : w'.alive = w.alive) :
    Started boots w' :=
  ⟨fun i hi => h.nonzero i (halive ▸ hi),
    fun i j hi hj => h.distinct i j (halive ▸ hi) (halive ▸ hj)⟩

theorem Started.restart (h : Started boots w)
    (hhonest : w.Honest boots .restart) : Started boots (w.step .restart) := by
  obtain ⟨hzero, hnew⟩ := hhonest
  refine ⟨fun i hi => ?_, fun i j hi hj heq => ?_⟩
  · rcases Nat.le_succ_iff.mp hi with hi | rfl
    · exact h.nonzero i hi
    · exact hzero
  rcases Nat.le_succ_iff.mp hi with hi | rfl <;>
    rcases Nat.le_succ_iff.mp hj with hj | rfl
  · exact h.distinct i j hi hj heq
  · exact absurd heq (hnew i hi)
  · exact absurd heq.symm (hnew j hj)
  · rfl

omit [DecidableEq Addr] in
theorem Base.arrives (h : Base boots w) (harrives : Arrives boots w i f w') :
    Base boots w' := by
  have hissued : ∀ c ∈ w.issued, c ∈ w'.issued := by
    rcases harrives.reflector with ⟨-, hsame⟩ | ⟨reply, -, -, hmore⟩
    · rw [hsame]
      exact fun c hc => hc
    · rw [hmore]
      exact fun c hc => List.mem_append_left _ hc
  refine ⟨h.started.congr harrives.alive, ?_, fun i' f' hmem => ?_⟩
  · rcases harrives.reflector with ⟨hr, hsame⟩ | ⟨reply, hstep, hdrawn, hmore⟩
    · rw [hr, hsame]
      exact h.fresh
    · rw [hmore]
      exact h.fresh.step hstep hdrawn
  · rw [harrives.created] at hmem
    exact (h.genuine i' f' hmem).mono harrives.alive.ge hissued

variable {e : Event Addr}

theorem Base.step (h : Base boots w) (hhonest : w.Honest boots e) :
    Base boots (w.step e) := by
  cases e with
  | restart =>
    exact ⟨h.started.restart hhonest, h.fresh, fun i f hmem =>
      (h.genuine i f hmem).mono (Nat.le_succ _) fun _ hc => hc⟩
  | create f =>
    refine ⟨h.started.congr rfl, h.fresh, fun i' f' hmem => ?_⟩
    rcases List.mem_append.mp hmem with hold | hnew
    · exact (h.genuine i' f' hold).mono le_rfl fun _ hc => hc
    · cases List.mem_singleton.mp hnew
      exact ⟨le_rfl, fun hecho => (hhonest.1 hecho).1,
        fun hecho => (hhonest.1 hecho).2, hhonest.2⟩
  | deliver =>
    rcases deliver_cases h hhonest with hsame | ⟨i, f, -, harrives⟩
    · rwa [hsame]
    · exact h.arrives harrives
  | other peer =>
    refine ⟨h.started.congr rfl, ?_, fun i f hmem =>
      (h.genuine i f hmem).mono le_rfl fun _ hc => hc⟩
    show Reflector.Fresh w.issued peer.reflector
    rw [hhonest.1]
    exact h.fresh

/-! ## A boot that was left -/

omit [DecidableEq Addr] in
theorem Settled.arrives (hbase : Base boots w) (h : Settled boots j w)
    (harrives : Arrives boots w i f w') : Settled boots j w' := by
  intro f' hmem hecho hlive
  rw [harrives.created] at hmem
  have hcarried := (hbase.genuine j f' hmem).challenge hecho
  rcases harrives.reflector with ⟨hr, -⟩ | ⟨reply, hstep, hdrawn, -⟩
  · rw [hr] at hlive ⊢
    exact h f' hmem hecho hlive
  rcases hstep.same_or_new hdrawn f'.pathID with
    ⟨hch, hse⟩ | ⟨c, hnew, hne, hword⟩
  · rw [hse]
    exact h f' hmem hecho (hch.symm.trans hlive)
  rw [hnew] at hlive
  cases hlive
  rcases hcarried with hzero | hissued
  · exact absurd hzero hne
  · exact absurd hword (hbase.fresh.unissued _ hissued).2

omit [DecidableEq Addr] in
theorem Settled.not_adopted (hbase : Base boots w) (h : Settled boots i w)
    (hmem : (i, f) ∈ w.created) (hecho : f.isEcho = false)
    {r' : Reflector} {a : AcceptedProbe}
    (hstep : Reflector.Handled w.peer.reflector f r' (.ok a)) :
    a.acceptance ≠ .adopted := by
  intro ha
  have hgenuine := hbase.genuine i f hmem
  obtain ⟨hlive | ⟨-, hdraw⟩, hsession⟩ := hstep.of_adopted ha
  · rw [hgenuine.session hecho] at hsession
    exact hsession (h f hmem hecho hlive)
  obtain ⟨hne, hsuffix⟩ := drawChallenge_some (Prod.ext rfl hdraw)
  rcases hgenuine.challenge hecho with hzero | hissued
  · exact hne hzero
  · exact (hbase.fresh.unissued _ hissued).2
      (hsuffix.subset List.mem_cons_self)

/-- The boot has ended, it is settled, and the remote epoch is of another
boot. -/
structure Gone (boots : ℕ → UInt64) (i : ℕ) (w : Exchange Addr) : Prop where
  ended : i < w.alive
  settled : Settled boots i w
  other : w.boot ≠ (boots i).toNat
  known : w.boot ≠ 0

theorem Gone.step (hbase : Base boots w) (h : Gone boots i w)
    (hhonest : w.Honest boots e) : Gone boots i (w.step e) := by
  cases e with
  | restart => exact ⟨Nat.lt_succ_of_lt h.ended, h.settled, h.other, h.known⟩
  | create f =>
    refine ⟨h.ended, fun f' hmem => ?_, h.other, h.known⟩
    rcases List.mem_append.mp hmem with hold | hnew
    · exact h.settled f' hold
    · cases List.mem_singleton.mp hnew
      exact absurd h.ended (Nat.lt_irrefl _)
  | deliver =>
    rcases deliver_cases hbase hhonest with hsame | ⟨j, f, hmem, harrives⟩
    · rwa [hsame]
    refine ⟨harrives.alive ▸ h.ended, h.settled.arrives hbase harrives,
      ?_, ?_⟩
    all_goals
      rcases harrives.boot with hsame | ⟨hnew, hcause⟩
    · rw [hsame]
      exact h.other
    · -- another boot was adopted, as a probe of this one is not
      rw [hnew]
      intro heq
      have hij : j = i := hbase.started.distinct j i
        (hbase.genuine j f hmem).boot_le h.ended.le (UInt64.toNat_inj.mp heq)
      subst hij
      rcases hcause with hnone | ⟨hecho, r', a, hstep, ha⟩
      · exact h.known hnone
      · exact h.settled.not_adopted hbase hmem hecho hstep ha
    · rw [hsame]
      exact h.known
    · rw [hnew]
      exact fun heq => hbase.started.nonzero j
        (hbase.genuine j f hmem).boot_le (UInt64.toNat_inj.mp heq)
  | other peer =>
    have hboot : (w.step (.other peer)).boot = w.boot :=
      congrArg Epoch.boot hhonest.2
    refine ⟨h.ended, fun f' hmem hecho => ?_, hboot ▸ h.other,
      hboot ▸ h.known⟩
    show peer.reflector.challenge _ = _ → peer.reflector.session _ = _
    rw [hhonest.1]
    exact h.settled f' hmem hecho

/-- The remote epoch leaves a boot for a later one. -/
theorem Gone.start (hbase : Base boots w) (hhonest : w.Honest boots e)
    (hclean : w.Clean boots e) (hij : i < j) (hstarted : j ≤ w.alive)
    (hi : w.boot = (boots i).toNat) (hj : (w.step e).boot = (boots j).toNat) :
    Gone boots i (w.step e) := by
  have hne : (boots j).toNat ≠ (boots i).toNat := fun heq =>
    absurd (hbase.started.distinct j i hstarted (hij.le.trans hstarted)
      (UInt64.toNat_inj.mp heq)) (Nat.ne_of_gt hij)
  have hmoved : (w.step e).boot ≠ w.boot := by
    rwa [hi, hj]
  have hsettled := hclean i j hij hstarted hi hj
  cases e with
  | restart | create => exact absurd rfl hmoved
  | other => exact absurd (congrArg Epoch.boot hhonest.2) hmoved
  | deliver =>
    rcases deliver_cases hbase hhonest with hsame | ⟨j', f, hmem, harrives⟩
    · exact absurd (congrArg boot hsame) hmoved
    rcases harrives.boot with hsame | ⟨hnew, -⟩
    · exact absurd hsame hmoved
    refine ⟨?_, hsettled.arrives hbase harrives, hj ▸ hne, ?_⟩
    · rw [harrives.alive]
      exact hij.trans_le hstarted
    · rw [hj]
      exact fun heq =>
        hbase.started.nonzero j hstarted (UInt64.toNat_inj.mp heq)

theorem base_run (h : Base boots w) {events : List (Event Addr)}
    (hhonest : Along step (Honest boots) w events) (k : ℕ) :
    Base boots (w.run (events.take k)) :=
  foldl_take_induction (Nat.zero_le k) h fun _ _ _ _ he hbase =>
    hbase.step (hhonest.getElem? he)

/-- Consider an end with a new reflector, whose random source draws pairwise
distinct values and does not fail, and a peer whose boots have distinct sessions.
In every exchange in which the remote epoch leaves a boot for a later one only
when the boot is settled, it never returns to a boot that it has left for a later
one. -/
theorem no_return_to_dead_boot
    (boots : ℕ → UInt64) (hzero : boots 0 ≠ 0) (peer : PeerState Addr)
    (rand : List (Option UInt64)) (hdistinct : (words rand).Nodup)
    (hreflector : peer.reflector = .new rand) (events : List (Event Addr))
    (hhonest : Along step (Honest boots) ⟨peer, [], 0, []⟩ events)
    (hclean : Along step (Clean boots) ⟨peer, [], 0, []⟩ events) :
    let w := fun k => run ⟨peer, [], 0, []⟩ (events.take k)
    ∀ i j k l, i < j → j ≤ (w k).alive → k < l → k < events.length →
      (w k).boot = (boots i).toNat → (w (k + 1)).boot = (boots j).toNat →
      (w l).boot ≠ (boots i).toNat := by
  intro w i j k l hij hstarted hkl hk hi hj
  have hstart : Base boots (⟨peer, [], 0, []⟩ : Exchange Addr) := by
    refine ⟨⟨fun i hi => ?_, fun i j hi hj _ => ?_⟩, ?_, nofun⟩
    · rwa [Nat.le_zero.mp hi]
    · rw [Nat.le_zero.mp hi, Nat.le_zero.mp hj]
    · rw [hreflector]
      exact Reflector.fresh_new hdistinct
  have hbase := base_run hstart hhonest
  have he : events[k]? = some (events.get ⟨k, hk⟩) :=
    List.getElem?_eq_getElem hk
  have hnext : w (k + 1) = (w k).step (events.get ⟨k, hk⟩) :=
    foldl_take_succ he
  have hgone : Gone boots i (w (k + 1)) := by
    rw [hnext] at hj ⊢
    exact Gone.start (hbase k) (hhonest.getElem? he) (hclean.getElem? he) hij
      hstarted hi hj
  have hlast : Gone boots i (w l) :=
    foldl_take_induction hkl hgone fun k' e _ _ he' hgone' =>
      hgone'.step (hbase k') (hhonest.getElem? he')
  exact hlast.other

end Invariant

/-! ## Two boots -/

/-- An end with two views and the given random source. -/
def twoViews (rand : List (Option UInt64)) : PeerState ℕ where
  decode _ := none
  views := [⟨⟨0, 0, 1⟩, .unknown, none, false, 0⟩,
    ⟨⟨1, 1, 2⟩, .unknown, none, false, 0⟩]
  reflector := .new rand
  adaptive := some (.openPeer ⟨9, 1⟩)
  resequencer := none

/-- The sessions of the two boots. -/
def sessions (i : ℕ) : UInt64 := if i = 0 then 1 else 2

/-- A probe of a session, with its hello. -/
def helloProbe (session : UInt64) (path : UInt8) (seq challenge : UInt64) :
    Probe :=
  ⟨path, seq, 0, false, session, challenge, false, 0,
    Bond.hello ⟨session.toNat, 1⟩ path⟩

/-- The `n`-th frame arrives on the `k`-th view. -/
def arrive (n k : ℕ) : Event ℕ := .deliver n k 60 5 ⟨0, 0, [], [], .plain⟩

variable {w : Exchange ℕ}

theorem honest_create {session : UInt64} {path : UInt8} {seq challenge : UInt64}
    (hparse : parseHello (Bond.hello ⟨session.toNat, 1⟩ path) =
      some (⟨session.toNat, 1⟩, path)) (hsession : session = sessions w.alive)
    (hchallenge : challenge = 0 ∨ challenge ∈ w.issued) :
    w.Honest sessions (.create (helloProbe session path seq challenge)) := by
  refine ⟨fun _ => ⟨hsession, hchallenge⟩, fun hello hhello => ?_⟩
  cases (Option.some.inj (hparse.symm.trans hhello))
  rw [hsession]

theorem honest_restart (h : w.alive = 0) : w.Honest sessions .restart := by
  refine ⟨by rw [h]; decide, fun i hi => ?_⟩
  rw [h] at hi ⊢
  rw [Nat.le_zero.mp hi]
  decide

/-- The first boot is adopted on its path 1, and after it the second one. -/
def orderly : List (Event ℕ) :=
  [.create (helloProbe 1 1 0 0), arrive 0 0, .create (helloProbe 1 1 1 11),
    arrive 1 0, .restart, .create (helloProbe 2 1 0 0), arrive 2 0,
    .create (helloProbe 2 1 1 12), arrive 3 0]

/-- The random source of this end. -/
def draws : List (Option UInt64) :=
  [some 11, some 12, some 13, some 14, some 15]

theorem honest_orderly :
    Along step (Honest sessions) ⟨twoViews draws, [], 0, []⟩ orderly := by
  refine ⟨honest_create (by decide) (by decide) (by decide), ?_,
    honest_create (by decide) (by decide) (by decide), ?_, honest_restart rfl,
    honest_create (by decide) (by decide) (by decide), ?_,
    honest_create (by decide) (by decide) (by decide), ?_, trivial⟩
  all_goals
    rintro c ⟨⟩ -
    decide

theorem clean_of_boot {e : Event ℕ} (halive : w.alive ≤ 1)
    (h : w.boot = 1 → (w.step e).boot = 2 → Settled sessions 0 w) :
    w.Clean sessions e := by
  intro i j hij hj hi hnext
  obtain rfl : i = 0 := by omega
  obtain rfl : j = 1 := by omega
  exact h hi hnext

theorem clean_orderly :
    Along step (Clean sessions) ⟨twoViews draws, [], 0, []⟩ orderly := by
  refine ⟨?_, ?_, ?_, ?_, ?_, ?_, ?_, ?_, ?_, trivial⟩
  all_goals refine clean_of_boot (by decide) ?_
  iterate 8 exact fun _ h => absurd h (by decide)
  intro _ _ f hmem
  have hsettled : ∀ c ∈ (run ⟨twoViews draws, [], 0, []⟩ (orderly.take 8)).created,
      c.1 = 0 → c.2.isEcho = false →
        (run ⟨twoViews draws, [], 0, []⟩ (orderly.take 8)).peer.reflector.challenge
          c.2.pathID ≠ some c.2.challenge := by decide
  exact fun hecho hlive => absurd hlive (hsettled (0, f) hmem rfl hecho)

theorem no_return_to_dead_boot_orderly :
    (run ⟨twoViews draws, [], 0, []⟩ orderly).boot = 2 ∧
      ∀ l, 8 < l →
        (run ⟨twoViews draws, [], 0, []⟩ (orderly.take l)).boot ≠ 1 :=
  ⟨by decide, fun l hl => no_return_to_dead_boot sessions (by decide)
    (twoViews draws) draws (by decide) rfl orderly honest_orderly
    clean_orderly 0 1 8 l (by decide) (by decide) hl (by decide) (by decide)
    (by decide)⟩

/-- The probe with which the first boot answers the challenge of its path 2 is
delayed until the second boot has been adopted on path 1. -/
def overtaken : List (Event ℕ) :=
  [.create (helloProbe 1 1 0 0), arrive 0 0, .create (helloProbe 1 2 0 0),
    arrive 1 1, .create (helloProbe 1 1 1 11), arrive 2 0,
    .create (helloProbe 1 2 1 12), .restart, .create (helloProbe 2 1 0 0),
    arrive 4 0, .create (helloProbe 2 1 1 13), arrive 5 0, arrive 3 1]

/-- The remote epoch goes back from the second boot to the first one, which has
ended. -/
theorem dead_boot_returns :
    (words draws).Nodup ∧
      Along step (Honest sessions) ⟨twoViews draws, [], 0, []⟩ overtaken ∧
      (run ⟨twoViews draws, [], 0, []⟩ (overtaken.take 11)).boot = 1 ∧
      (run ⟨twoViews draws, [], 0, []⟩ (overtaken.take 12)).boot = 2 ∧
      (run ⟨twoViews draws, [], 0, []⟩ overtaken).boot = 1 := by
  refine ⟨by decide, ⟨honest_create (by decide) (by decide) (by decide), ?_,
    honest_create (by decide) (by decide) (by decide), ?_,
    honest_create (by decide) (by decide) (by decide), ?_,
    honest_create (by decide) (by decide) (by decide), honest_restart rfl,
    honest_create (by decide) (by decide) (by decide), ?_,
    honest_create (by decide) (by decide) (by decide), ?_, ?_, trivial⟩,
    by decide, by decide, by decide⟩
  all_goals
    rintro c ⟨⟩ -
    decide

end Exchange

end Wanbond.Bind
