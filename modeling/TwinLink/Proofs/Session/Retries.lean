import TwinLink.Proofs.Session.StartEnds

/-!
# Requests of the handshake, made and repeated

A start makes the first request of the handshake, and the second once the first is answered. When the wait for a reply
times out, it makes the request again after a pause, or gives up; and whatever else goes wrong ends it at once.

* `Host.overdue`, `Setup.timeouts_run` : a wait that times out, and the link counts these;
* `Point.tries?`, `Host.nextRequest`, `Host.stage?` : the request under way, the one to be made next, and the phase;
* `Host.breach` : what else ends the phase; `Moment.FailsIn` : the phase fails;
* `StartMove`, `CallMove.starts` : all that a step of a start can come to;
* `Tally`, `Tally.Sound`, `Tally.At` : the requests and the waits of each phase, and how they belong to the point where
  the start stands; `Tally.At.move` : a step keeps this.
-/

namespace TwinLink

open Decoder (frameOf)

variable {h h' : Host} {c : Call} {q p : Point} {m : Move} {a : Action} {l : Link} {s : Session}
  {notes : List Happening}

/-! ## Waits that time out -/

/-- The exchange that has waited for its packet in vain, the call being about to look for it once more. -/
def Host.overdue (h : Host) (c : Call) : Option Purpose :=
  match c.point with
  | .awaiting ticket _ (some alarm) purpose =>
    if (h.link.delivery? ticket.id).isNone ∧ alarm.due ≤ h.now then some purpose else none
  | _ => none

/-- The exchange that times out. -/
def Moment.overdue (m : Moment) : Option Purpose := m.mover.bind m.host.overdue

/-- A call that has to wait has time. -/
theorem Host.overdue_waits (hw : h.pointStep c = none) : h.overdue c = none := by
  unfold overdue
  split
  · rename_i ticket limit alarm purpose hpt
    rw [if_neg]
    rintro ⟨hd, ha⟩
    simp only [pointStep, hpt, waitStep_timedOut (Option.isNone_iff_eq_none.mp hd) ha] at hw
    cases hw
  · rfl

theorem Attempts.metrics {stage : Stage} {retries : Nat} (ha : Attempts l s notes stage retries m) :
    m.link.metrics = l.metrics := by
  cases ha <;> rfl

theorem Fails.metrics {purpose : Purpose} {e : LinkError} (hf : Fails h l notes purpose e m) :
    m.link.metrics = l.metrics := by
  cases hf <;> rfl

theorem Link.metrics_withdraw? (l : Link) (ticket : Option Ticket) :
    (ticket.elim l fun t => l.withdraw t.id).metrics = l.metrics := by
  cases ticket <;> rfl

/-- **A call counts a timeout exactly as its wait times out.** -/
theorem CallMove.timeouts (hm : CallMove h c c.point m) :
    m.link.metrics.timeouts = h.link.metrics.timeouts + (h.overdue c).toList.length := by
  have hquiet : m.link.metrics = h.link.metrics → h.overdue c = none →
      m.link.metrics.timeouts = h.link.metrics.timeouts + (h.overdue c).toList.length := fun hl ho => by
    rw [hl, ho]
    rfl
  generalize hpt : c.point = q at hm
  cases hm with
  | begin hm =>
    refine hquiet ?_ (by rw [Host.overdue, hpt])
    cases hm with
    | start hp ht ha => exact ha.metrics
    | _ => rfl
  | shutOut frame ticket limit purpose hc hf =>
    exact hquiet (hf.metrics.trans (Link.metrics_withdraw? _ _)) (by rw [Host.overdue, hpt])
  | unwritten ticket limit purpose e hr hf =>
    exact hquiet (hf.metrics.trans (Link.metrics_withdraw? _ _)) (by rw [Host.overdue, hpt])
  | failed ticket limit alarm purpose e hd hf =>
    exact hquiet hf.metrics (by cases alarm <;> simp [Host.overdue, hpt, hd])
  | timedOut ticket limit alarm purpose hd ha hf => rw [hf.metrics]; simp [Host.overdue, hpt, hd, ha]
  | received ticket limit alarm p hd | unreadable ticket limit alarm plan p hd | answered ticket limit alarm plan p hd
  | taken ticket limit alarm plan p hd | misdescribed ticket limit alarm retries p hd
  | described ticket limit alarm retries p hd =>
    exact hquiet rfl (by cases alarm <;> simp [Host.overdue, hpt, hd])
  | acknowledged ticket limit alarm retries p hd ha =>
    exact hquiet ha.metrics (by cases alarm <;> simp [Host.overdue, hpt, hd])
  | paused alarm stage retries ha hm => exact hquiet hm.metrics (by rw [Host.overdue, hpt])
  | _ => exact hquiet rfl (by rw [Host.overdue, hpt])

theorem Link.metrics_vacate (l : Link) (c : Call) : (l.vacate c).metrics = l.metrics := by
  unfold vacate
  cases c.point.ticket? <;> rfl

theorem Move.linkAfter_metrics (m : Move) (c : Call) : (m.linkAfter c).metrics = m.link.metrics := by
  unfold linkAfter
  split
  · exact Link.metrics_vacate _ _
  · rfl

theorem LoopMove.timeouts {q : LoopPoint} {t : LoopTurn} (hm : LoopMove h q t) :
    t.link.metrics.timeouts = h.link.metrics.timeouts := by
  cases hm <;> rfl

/-- What counts timeouts is the waits that time out. -/
theorem Acts.timeouts (ha : Acts h a h') :
    h'.link.metrics.timeouts = h.link.metrics.timeouts + (Moment.overdue ⟨h, a⟩).toList.length := by
  cases ha with
  | idle a hr =>
    have hnone : Moment.overdue ⟨h, a⟩ = none := by
      cases hc : (Moment.mk h a).mover with
      | none => rw [Moment.overdue, hc, Option.bind_none]
      | some c =>
        rw [Moment.overdue, hc, Option.bind_some]
        exact Host.overdue_waits (hr.waits hc)
    rw [hnone]
    rfl
  | loop i hm ht =>
    rw [ht.link]
    exact hm.timeouts
  | dispatcher i hm ht =>
    obtain ⟨events, he⟩ := hm.link
    rw [ht.link, he]
    rfl
  | @call id i c m _ hc hm hl =>
    have hmover : (Moment.mk h (.advance (.call id) i)).mover = some c := hc
    rw [hl.link, Move.linkAfter_metrics, hm.timeouts, Moment.overdue, hmover, Option.bind_some]
  | abandon hc released hr ready =>
    show (h.link.vacate _).metrics.timeouts = _
    rw [Link.metrics_vacate]
    rfl
  | _ => rfl

/-- **The link counts the waits that timed out**, whoever waited. -/
theorem Setup.timeouts_run (setup : Setup) (as : List Action) :
    (setup.host.run as).link.metrics.timeouts = ((setup.host.moments as).filterMap Moment.overdue).length := by
  induction as using List.reverseRecOn with
  | nil => cases setup <;> rfl
  | append_singleton as a ih =>
    rw [Host.run_concat, (setup.acts_run _ a).timeouts, ih, Host.seen_concat, List.length_append]

/-! ## The phases of a handshake -/

/-- The phase of the handshake that an exchange is for. -/
def Purpose.stage? : Purpose → Option Stage
  | .handshake stage _ => some stage
  | _ => none

/-- The request of the handshake that is under way, from its registration until its reply is taken up, and how often it
has been repeated. -/
def Point.tries? : Point → Option (Stage × Nat)
  | .entering _ _ _ (.handshake stage retries) => some (stage, retries)
  | .writing _ _ (.handshake stage retries) => some (stage, retries)
  | .awaiting _ _ _ (.handshake stage retries) => some (stage, retries)
  | _ => none

namespace Host

/-- The request of the handshake that a call makes in its next step, with how often it has been repeated then. -/
def nextRequest (h : Host) (c : Call) : Option (Stage × Nat) :=
  match c.point with
  | .begun .start => if h.session.phase = .faulted ∨ h.session.portTaken then none else some (.reset, 0)
  | .pausing alarm stage retries => if alarm.due ≤ h.now then some (stage, retries) else none
  | .awaiting ticket _ _ (.handshake .reset _) =>
    match h.link.delivery? ticket.id with
    | some (.ok _) => some (.describe, 0)
    | _ => none
  | _ => none

/-- The phase of the handshake that a call is in as it takes its next step. If it makes a request, it is in the phase of
that. -/
def stage? (h : Host) (c : Call) : Option Stage := ((h.nextRequest c).or c.point.tries?).map (·.1)

/-- The error that ends the phase in the next step of a call, other than that its time is up: the link takes no
registration for the reply, or does not write the request, or ends the registration; or the reply describes no
device. -/
def breach (h : Host) (c : Call) : Option (Stage × SessionError) :=
  match h.nextRequest c, c.point with
  | some (stage, _), _ => h.link.table.closed.map fun reason => (stage, .link (.closed reason))
  | none, .entering _ _ _ (.handshake stage _) | none, .writing _ _ (.handshake stage _) =>
    match h.sendResult c with
    | some (.error e) => some (stage, .link e)
    | _ => none
  | none, .awaiting ticket _ _ (.handshake stage _) =>
    match h.link.delivery? ticket.id with
    | some (.error e) => some (stage, .link e)
    | some (.ok reply) =>
      match Descriptor.parse h.session.config.revision reply.payload with
      | .error e => some (stage, .descriptor e)
      | .ok _ => none
    | none => none
  | _, _ => none

end Host

namespace Moment

/-- The phase of the handshake a wait of which times out. -/
def expires (m : Moment) : Option Stage := m.overdue.bind Purpose.stage?

/-- What ends a phase of the handshake at once. -/
def breach (m : Moment) : Option (Stage × SessionError) := m.mover.bind m.host.breach

/-- A phase of the handshake fails with the error `e`: the start that is in it goes on to end with that. -/
def FailsIn (m : Moment) (stage : Stage) (e : SessionError) : Prop :=
  ∃ c, m.mover = some c ∧ m.host.stage? c = some stage ∧
    (m.after.call? c.id).map (·.point) = some (.shutting (.error (.session e)))

end Moment

/-! ## What a start does in one step -/

/-- All that a step of a start can come to. -/
inductive StartMove (h : Host) (c : Call) (m : Move) : Prop
  /-- It makes a request. -/
  | asks {stage : Stage} {retries : Nat} {ticket : Option Ticket} {limit : Option Nat}
      (hn : h.nextRequest c = some (stage, retries)) (hb : h.breach c = none) (ho : h.overdue c = none)
      (hf : m.fate = .goes (.entering (frameOf (.bare stage.request)) ticket limit (.handshake stage retries)) false)
  /-- Its request comes further. -/
  | goesOn {stage : Stage} {retries : Nat} {p : Point} (hq : c.point.tries? = some (stage, retries))
      (hn : h.nextRequest c = none) (hb : h.breach c = none) (ho : h.overdue c = none)
      (hr : ∀ r, h.sendResult c = some r → r = .ok ()) (hp : m.pointAfter c = some p)
      (hp' : p.tries? = some (stage, retries))
      (hf : ∀ frame ticket limit purpose keeps, m.fate ≠ .goes (.entering frame ticket limit purpose) keeps)
  /-- Its time is up, and it is to make the request again. -/
  | pauses {stage : Stage} {retries : Nat} {alarm : Alarm} (hq : c.point.tries? = some (stage, retries))
      (hn : h.nextRequest c = none) (hb : h.breach c = none) (ho : h.overdue c = some (.handshake stage retries))
      (hlt : retries < h.session.config.handshakeRetries)
      (hf : m.fate = .goes (.pausing alarm stage (retries + 1)) false)
  /-- Its time is up, and it gives up. -/
  | givesUp {stage : Stage} {retries : Nat} (hq : c.point.tries? = some (stage, retries))
      (hn : h.nextRequest c = none) (hb : h.breach c = none) (ho : h.overdue c = some (.handshake stage retries))
      (hge : h.session.config.handshakeRetries ≤ retries)
      (hf : m.fate = .goes (.shutting (.error (.session (.link .timeout)))) false)
  /-- Something else ends the phase. -/
  | breaks {stage : Stage} {e : SessionError} (hb : h.breach c = some (stage, e)) (he : e ≠ .link .timeout)
      (hs : h.stage? c = some stage) (ho : h.overdue c = none)
      (hf : m.fate = .goes (.shutting (.error (.session e))) false)
  /-- The device has described itself. -/
  | described {retries : Nat} {d : Descriptor} (hq : c.point.tries? = some (.describe, retries))
      (hn : h.nextRequest c = none) (hb : h.breach c = none) (ho : h.overdue c = none) (hs : c.point.sends = false)
      (hf : m.fate = .goes (.registering d d.registration none) false)
  /-- It makes the device known to the twin, or is done. -/
  | registers {d : Descriptor} {todo : List TwinCall} {pending : Option Pending}
      (hq : c.point = .registering d todo pending)
      (hp : ∀ p keeps, m.fate = .goes p keeps →
        (∃ d todo pending, p = .registering d todo pending) ∨ ∃ e, p = .shutting (.error e))

/-- A request that is about to be made is made, or the link is closed. -/
theorem Attempts.starts_move {stage : Stage} {retries : Nat} (ha : Attempts l s notes stage retries m)
    (hn : h.nextRequest c = some (stage, retries)) (hl : l.table.closed = h.link.table.closed)
    (ho : h.overdue c = none) : StartMove h c m := by
  cases ha with
  | opened hopen => exact .asks hn (by rw [Host.breach, hn, ← hl, hopen]; rfl) ho rfl
  | closed reason hc =>
    have hb : h.breach c = some (stage, .link (.closed reason)) := by
      rw [Host.breach, hn, ← hl, hc]
      rfl
    exact .breaks hb nofun (by rw [Host.stage?, hn]; rfl) ho rfl

/-- A request that has failed, but not for want of time, ends its phase. -/
theorem Fails.starts_move {stage : Stage} {retries : Nat} {e : LinkError}
    (hf : Fails h l notes (.handshake stage retries) e m) (he : e ≠ .timeout)
    (hq : c.point.tries? = some (stage, retries)) (hn : h.nextRequest c = none)
    (hb : h.breach c = some (stage, .link e)) (ho : h.overdue c = none) : StartMove h c m := by
  cases hf with
  | retry => exact absurd rfl he
  | fault => exact .breaks hb (fun h => he (by cases h; rfl)) (by rw [Host.stage?, hn, hq]; rfl) ho rfl

/-- **Every step of a start comes to one of these.** -/
theorem CallMove.starts {opened : List Waiter} (hm : CallMove h c c.point m) (hc : c ∈ h.calls)
    (hq : c.point.phase? ≠ none ∨ c.point = .begun .start ∧ h.session.phase ≠ .faulted ∧ h.session.portTaken = false)
    (hcand : h.Candid) (hreg : h.Registered opened) : StartMove h c m := by
  generalize hpt : c.point = q at hm hq
  -- an exchange of a start is one of the handshake
  have hshake : ∀ {purpose : Purpose}, q.purpose? = some purpose → q.phase? = purpose.phase? →
      ∃ stage retries, purpose = .handshake stage retries := fun {purpose} hpurpose hphase => by
    have hne := hq.resolve_right fun h => by rw [h.1] at hpurpose; cases hpurpose
    cases purpose with
    | handshake stage retries => exact ⟨stage, retries, rfl⟩
    | direct | operation => exact absurd hphase hne
  have hquiet : q.phase? = none → q ≠ .begun .start → StartMove h c m := fun hn hno =>
    absurd hn (hq.resolve_right fun h => hno h.1)
  cases hm with
  | @begin r _ hm =>
    have hstart := hq.resolve_left fun h => h rfl
    obtain rfl : r = .start := Point.begun.inj hstart.1
    cases hm with
    | startFaulted hp => exact absurd hp hstart.2.1
    | startTaken hp ht => rw [hstart.2.2] at ht; cases ht
    | start hp ht ha => exact ha.starts_move (by simp [Host.nextRequest, hpt, hp, ht]) rfl (by rw [Host.overdue, hpt])
  | entered frame ticket limit purpose ho =>
    obtain ⟨stage, retries, rfl⟩ := hshake rfl rfl
    have hnone : h.sendResult c = none := by simp [Host.sendResult, hpt, ho]
    have hn : h.nextRequest c = none := by rw [Host.nextRequest, hpt]
    exact .goesOn (by rw [hpt]; rfl) hn (by rw [Host.breach, hn, hpt, hnone]) (by rw [Host.overdue, hpt])
      (fun r hr => by rw [hnone] at hr; cases hr) rfl rfl fun _ _ _ _ _ hg => by cases hg
  | queued frame ticket limit purpose ho =>
    obtain ⟨stage, retries, rfl⟩ := hshake rfl rfl
    have hnone : h.sendResult c = none := by simp [Host.sendResult, hpt, ho]
    have hn : h.nextRequest c = none := by rw [Host.nextRequest, hpt]
    exact .goesOn (by rw [hpt]; rfl) hn (by rw [Host.breach, hn, hpt, hnone]) (by rw [Host.overdue, hpt])
      (fun r hr => by rw [hnone] at hr; cases hr) rfl (by rw [hpt]; rfl)
      fun _ _ _ _ _ hg => by cases hg
  | shutOut frame ticket limit purpose hcl hf =>
    obtain ⟨stage, retries, rfl⟩ := hshake rfl rfl
    have hresult : h.sendResult c = some (.error h.link.closedError) := by
      simp [Host.sendResult, Channel.offer, hpt, hcl]
    have hn : h.nextRequest c = none := by rw [Host.nextRequest, hpt]
    exact hf.starts_move (hcand.refused hcl).ne_timeout (by rw [hpt]; rfl) hn
      (by rw [Host.breach, hn, hpt, hresult]) (by rw [Host.overdue, hpt])
  | unwritten ticket limit purpose e hr hf =>
    obtain ⟨stage, retries, rfl⟩ := hshake rfl rfl
    have hresult : h.sendResult c = some (.error e) := by rw [Host.sendResult, hpt, hr]
    have hn : h.nextRequest c = none := by rw [Host.nextRequest, hpt]
    exact hf.starts_move (hcand.receipts _ _ hr).ne_timeout (by rw [hpt]; rfl) hn
      (by rw [Host.breach, hn, hpt, hresult]) (by rw [Host.overdue, hpt])
  | sent limit purpose hr =>
    -- a request of the handshake has its registration
    obtain ⟨stage, retries, rfl⟩ := hshake rfl rfl
    obtain ⟨w, -, hw, -⟩ := hreg c hc (.handshake stage retries) (by rw [hpt]; rfl) fun h => by cases h
    rw [hpt] at hw
    cases hw
  | written ticket limit purpose hr =>
    obtain ⟨stage, retries, rfl⟩ := hshake rfl rfl
    have hresult : h.sendResult c = some (.ok ()) := by rw [Host.sendResult, hpt, hr]
    have hn : h.nextRequest c = none := by rw [Host.nextRequest, hpt]
    exact .goesOn (by rw [hpt]; rfl) hn (by rw [Host.breach, hn, hpt, hresult]) (by rw [Host.overdue, hpt])
      (fun r hr => (Option.some.inj (hresult.symm.trans hr)).symm) rfl rfl fun _ _ _ _ _ hg => by cases hg
  | failed ticket limit alarm purpose e hd hf =>
    obtain ⟨stage, retries, rfl⟩ := hshake rfl rfl
    have hn : h.nextRequest c = none := by cases stage <;> simp only [Host.nextRequest, hpt, hd]
    exact hf.starts_move (hcand.deliveries c hc ticket (by rw [hpt]; rfl) e hd).ne_timeout (by rw [hpt]; rfl) hn
      (by simp only [Host.breach, hn, hpt, hd]) (by cases alarm <;> simp [Host.overdue, hpt, hd])
  | timedOut ticket limit alarm purpose hd ha hf =>
    obtain ⟨stage, retries, rfl⟩ := hshake rfl rfl
    have hn : h.nextRequest c = none := by cases stage <;> simp only [Host.nextRequest, hpt, hd]
    have hb : h.breach c = none := by simp only [Host.breach, hn, hpt, hd]
    have ho : h.overdue c = some (.handshake stage retries) := by simp [Host.overdue, hpt, hd, ha]
    cases hf with
    | retry stage retries hlt => exact .pauses (by rw [hpt]; rfl) hn hb ho hlt rfl
    | fault stage retries e hno =>
      exact .givesUp (by rw [hpt]; rfl) hn hb ho (Nat.le_of_not_lt fun hlt => hno ⟨rfl, hlt⟩) rfl
  | acknowledged ticket limit alarm retries reply hd ha =>
    exact ha.starts_move (by simp only [Host.nextRequest, hpt, hd]) rfl
      (by cases alarm <;> simp [Host.overdue, hpt, hd])
  | misdescribed ticket limit alarm retries reply hd e hp =>
    have hn : h.nextRequest c = none := by rw [Host.nextRequest, hpt]
    have hb : h.breach c = some (.describe, .descriptor e) := by simp only [Host.breach, hn, hpt, hd, hp]
    exact .breaks hb (fun h => by cases h) (by rw [Host.stage?, hn, hpt]; rfl)
      (by cases alarm <;> simp [Host.overdue, hpt, hd]) rfl
  | described ticket limit alarm retries reply hd d hp =>
    have hn : h.nextRequest c = none := by rw [Host.nextRequest, hpt]
    exact .described (by rw [hpt]; rfl) hn (by simp only [Host.breach, hn, hpt, hd, hp])
      (by cases alarm <;> simp [Host.overdue, hpt, hd]) (by rw [hpt]; rfl) rfl
  | paused alarm stage retries ha hm =>
    exact hm.starts_move (by simp only [Host.nextRequest, hpt, if_pos ha]) rfl (by rw [Host.overdue, hpt])
  | asked | skipped | registered =>
    exact .registers hpt fun p keeps hg => by cases hg; exact .inl ⟨_, _, _, rfl⟩
  | refused => exact .registers hpt fun p keeps hg => by cases hg; exact .inr ⟨_, rfl⟩
  | started => exact .registers hpt fun p keeps hg => by cases hg
  | _ => exact hquiet rfl fun h => by cases h

/-- What is handed to the link when a request is made. -/
theorem Host.outgoing_of_nextRequest {stage : Stage} {retries : Nat} (hn : h.nextRequest c = some (stage, retries)) :
    c.point.outgoing = some (.bare stage.request) ∧ c.point.sends = false := by
  unfold nextRequest at hn
  split at hn
  · rename_i hpt
    split at hn
    · cases hn
    · cases hn
      rw [hpt]
      exact ⟨rfl, rfl⟩
  · rename_i hpt
    split at hn
    · cases hn
      rw [hpt]
      exact ⟨rfl, rfl⟩
    · cases hn
  · rename_i hpt
    split at hn
    · cases hn
      rw [hpt]
      exact ⟨rfl, rfl⟩
    · cases hn
  · cases hn

/-- The request of the handshake that a move makes. -/
def Move.asks (m : Move) : Option Stage :=
  match m.fate with
  | .goes (.entering _ _ _ purpose) _ => purpose.stage?
  | _ => none

theorem Move.asks_of_not_entering
    (hf : ∀ frame ticket limit purpose keeps, m.fate ≠ .goes (.entering frame ticket limit purpose) keeps) :
    m.asks = none := by
  unfold asks
  split
  · exact absurd ‹_› (hf _ _ _ _ _)
  · rfl

/-! ## Requests and waits, counted -/

/-- How often each request of the handshake was made, and how often the wait for its reply has timed out. -/
structure Tally where
  asked : Stage → Nat
  expired : Stage → Nat

namespace Tally

variable {t : Tally} {n retries : Nat} {stage : Stage}

/-- One more request, or one more wait that has timed out. -/
def add (t : Tally) (asks expires : Option Stage) : Tally where
  asked stage := t.asked stage + asks.toList.count stage
  expired stage := t.expired stage + expires.toList.count stage

/-- A request is made again only after a wait for its reply has timed out, and at most `n` times. -/
structure Sound (t : Tally) (n : Nat) : Prop where
  bounded : ∀ stage, t.asked stage ≤ n + 1
  paced : ∀ stage, t.asked stage ≤ t.expired stage + 1
  waited : ∀ stage, t.expired stage ≤ t.asked stage

/-- The phase is reached: the first request is answered, if it is the second's, and the second was not made before. -/
def Reaches (t : Tally) : Stage → Prop
  | .reset => t.asked .describe = 0
  | .describe => t.asked .reset = t.expired .reset + 1

/-- The request is about to be made, and has been repeated so often if it was made before. -/
structure Ready (t : Tally) (n : Nat) (stage : Stage) (retries : Nat) : Prop where
  reaches : t.Reaches stage
  asked : t.asked stage = retries
  expired : t.expired stage = retries
  le : retries ≤ n

/-- The request is under way, and has been repeated so often. -/
structure Trying (t : Tally) (stage : Stage) (retries : Nat) : Prop where
  reaches : t.Reaches stage
  asked : t.asked stage = retries + 1
  expired : t.expired stage = retries

/-- How the tally belongs to the point where the start stands. -/
def At (t : Tally) (n : Nat) : Point → Prop
  | .begun _ => ∀ stage, t.asked stage = 0 ∧ t.expired stage = 0
  | .pausing _ stage retries => t.Ready n stage retries
  | .registering .. => ∀ stage, t.asked stage = t.expired stage + 1
  | q => ∀ stage retries, q.tries? = some (stage, retries) → t.Trying stage retries

theorem At.trying (ha : t.At n q) (hq : q.tries? = some (stage, retries)) : t.Trying stage retries := by
  cases q with
  | entering | writing | awaiting => exact ha _ _ hq
  | _ => cases hq

theorem At.of_trying (ht : t.Trying stage retries) (hq : q.tries? = some (stage, retries)) : t.At n q := by
  cases q with
  | entering | writing | awaiting =>
    intro stage' retries' hq'
    rw [hq] at hq'
    cases hq'
    exact ht
  | _ => cases hq

/-- A start that is about to make a request is ready for it. -/
theorem At.ready (hs : t.Sound n) (ha : t.At n c.point) (hn : h.nextRequest c = some (stage, retries)) :
    t.Ready n stage retries := by
  unfold Host.nextRequest at hn
  split at hn
  · rename_i hpt
    rw [hpt] at ha
    split at hn
    · cases hn
    · cases hn
      exact ⟨(ha .describe).1, (ha .reset).1, (ha .reset).2, Nat.zero_le n⟩
  · rename_i hpt
    rw [hpt] at ha
    split at hn
    · cases hn
      exact ha
    · cases hn
  · rename_i hpt
    rw [hpt] at ha
    have ht := ha.trying rfl
    split at hn
    · cases hn
      -- the second request was not made, so there was no wait for its reply
      have hexpired := hs.waited .describe
      have hasked : t.asked .describe = 0 := ht.reaches
      rw [hasked] at hexpired
      exact ⟨by rw [Reaches, ht.asked, ht.expired], hasked, Nat.le_zero.mp hexpired, Nat.zero_le n⟩
    · cases hn
  · cases hn

theorem add_asked (t : Tally) (stage stage' : Stage) :
    (t.add (some stage) none).asked stage' = t.asked stage' + if stage = stage' then 1 else 0 := by
  simp [add, List.count_singleton]

theorem add_expired (t : Tally) (stage stage' : Stage) :
    (t.add none (some stage)).expired stage' = t.expired stage' + if stage = stage' then 1 else 0 := by
  simp [add, List.count_singleton]

/-- The request is made. -/
theorem Ready.ask (hr : t.Ready n stage retries) (hs : t.Sound n) :
    (t.add (some stage) none).Sound n ∧ (t.add (some stage) none).Trying stage retries := by
  obtain ⟨hreaches, hasked, hexpired, hle⟩ := hr
  refine ⟨⟨fun stage' => ?_, fun stage' => ?_, fun stage' => ?_⟩, ?_, ?_, hexpired⟩
  · have := hs.bounded stage'
    rw [add_asked]
    split
    · subst stage'; omega
    · exact this
  · have := hs.paced stage'
    rw [add_asked]
    show _ ≤ t.expired stage' + 1
    split
    · subst stage'; omega
    · exact this
  · have := hs.waited stage'
    rw [add_asked]
    exact Nat.le_trans this (Nat.le_add_right _ _)
  · cases stage with
    | reset =>
      show (t.add _ _).asked .describe = 0
      rw [add_asked]
      exact hreaches
    | describe =>
      show (t.add _ _).asked .reset = t.expired .reset + 1
      rw [add_asked]
      exact hreaches
  · rw [add_asked, if_pos rfl, hasked]

/-- The wait for its reply times out. -/
theorem Trying.expire (ht : t.Trying stage retries) (hs : t.Sound n) :
    (t.add none (some stage)).Sound n ∧ (t.add none (some stage)).Reaches stage ∧
      (t.add none (some stage)).expired stage = retries + 1 := by
  obtain ⟨hreaches, hasked, hexpired⟩ := ht
  refine ⟨⟨hs.bounded, fun stage' => ?_, fun stage' => ?_⟩, ?_, ?_⟩
  · have := hs.paced stage'
    rw [add_expired]
    show t.asked stage' ≤ _
    omega
  · have := hs.waited stage'
    rw [add_expired]
    show _ ≤ t.asked stage'
    split
    · subst stage'; omega
    · exact this
  · cases stage with
    | reset => exact hreaches
    | describe =>
      show t.asked .reset = (t.add _ _).expired .reset + 1
      rw [add_expired]
      exact hreaches
  · rw [add_expired, if_pos rfl, hexpired]

/-- **A step of a start keeps the tally in order.** -/
theorem At.move (ha : t.At n c.point) (hs : t.Sound n) (hm : StartMove h c m)
    (hn : h.session.config.handshakeRetries = n) :
    (t.add m.asks ((h.overdue c).bind Purpose.stage?)).Sound n ∧
      ∀ p ∈ m.pointAfter c, (t.add m.asks ((h.overdue c).bind Purpose.stage?)).At n p := by
  cases hm with
  | asks hnext hb ho hf =>
    rw [ho, Move.asks, hf, Move.pointAfter, hf]
    obtain ⟨hsound, ht⟩ := (ha.ready hs hnext).ask hs
    exact ⟨hsound, fun p hp => by cases hp; exact .of_trying ht rfl⟩
  | goesOn hq hnext hb ho hr hp hp' hf =>
    rw [ho, Move.asks_of_not_entering hf, hp]
    exact ⟨hs, fun p hp => by cases hp; exact .of_trying (ha.trying hq) hp'⟩
  | pauses hq hnext hb ho hlt hf =>
    rw [ho, Move.asks, hf, Move.pointAfter, hf]
    obtain ⟨hsound, hreaches, hexpired⟩ := (ha.trying hq).expire hs
    refine ⟨hsound, fun p hp => ?_⟩
    cases hp
    exact ⟨hreaches, (ha.trying hq).asked, hexpired, hn ▸ hlt⟩
  | givesUp hq hnext hb ho hge hf =>
    rw [ho, Move.asks, hf, Move.pointAfter, hf]
    exact ⟨((ha.trying hq).expire hs).1, fun p hp => by cases hp; exact nofun⟩
  | breaks hb he hstage ho hf =>
    rw [ho, Move.asks, hf, Move.pointAfter, hf]
    exact ⟨hs, fun p hp => by cases hp; exact nofun⟩
  | described hq hnext hb ho hsends hf =>
    rw [ho, Move.asks, hf, Move.pointAfter, hf]
    obtain ⟨hreaches, hasked, hexpired⟩ := ha.trying hq
    refine ⟨hs, fun p hp => ?_⟩
    cases hp
    intro stage
    cases stage with
    | reset => exact hreaches
    | describe => show t.asked _ = t.expired _ + 1; rw [hasked, hexpired]
  | registers hq hp =>
    have ho : h.overdue c = none := by rw [Host.overdue, hq]
    have hasks : m.asks = none := Move.asks_of_not_entering fun _ _ _ _ _ hf => by
      rcases hp _ _ hf with ⟨_, _, _, he⟩ | ⟨_, he⟩ <;> cases he
    rw [hq] at ha
    rw [ho, hasks]
    refine ⟨hs, fun p hafter => ?_⟩
    unfold Move.pointAfter at hafter
    split at hafter
    · cases hafter
      rcases hp _ _ ‹_› with ⟨_, _, _, rfl⟩ | ⟨_, rfl⟩
      · exact ha
      · exact nofun
    · cases hafter
    · cases hafter
      rw [hq]
      exact ha

end Tally

/-! ## How a phase fails -/

/-- A start that makes its device known to the twin is in no phase of the handshake that can fail so. -/
theorem Host.no_stage {d : Descriptor} {todo : List TwinCall} {pending : Option Pending}
    (hq : c.point = .registering d todo pending) :
    h.stage? c = none ∧ h.breach c = none ∧ h.overdue c = none := by
  have hn : h.nextRequest c = none := by rw [nextRequest, hq]
  exact ⟨by rw [stage?, hn, hq]; rfl, by rw [breach, hn, hq], by rw [overdue, hq]⟩

namespace StartMove

variable {stage : Stage} {e : SessionError}

/-- **Any error but a timeout ends the phase at once**, and nothing else ends it with such an error. -/
theorem fails_iff (hm : StartMove h c m) (he : e ≠ .link .timeout) :
    h.stage? c = some stage ∧ m.pointAfter c = some (.shutting (.error (.session e))) ↔
      h.breach c = some (stage, e) := by
  -- where the phase goes on, neither is the case
  have hon : h.breach c = none → m.pointAfter c ≠ some (.shutting (.error (.session e))) →
      (h.stage? c = some stage ∧ m.pointAfter c = some (.shutting (.error (.session e))) ↔
        h.breach c = some (stage, e)) := fun hb hp =>
    ⟨fun h => absurd h.2 hp, fun h => by rw [hb] at h; cases h⟩
  cases hm with
  | asks hn hb ho hf => exact hon hb (by rw [Move.pointAfter, hf]; exact nofun)
  | goesOn hq hn hb ho hr hp hp' hf => exact hon hb (by rw [hp]; rintro ⟨⟩; cases hp')
  | pauses hq hn hb ho hlt hf => exact hon hb (by rw [Move.pointAfter, hf]; exact nofun)
  | givesUp hq hn hb ho hge hf => exact hon hb (by rw [Move.pointAfter, hf]; rintro ⟨⟩; exact he rfl)
  | breaks hb he' hs ho hf =>
    rw [hb, hs, Move.pointAfter, hf]
    constructor
    · rintro ⟨⟨⟩, ⟨⟩⟩
      rfl
    · rintro ⟨⟩
      exact ⟨rfl, rfl⟩
  | described hq hn hb ho hs hf => exact hon hb (by rw [Move.pointAfter, hf]; exact nofun)
  | registers hq hp =>
    obtain ⟨hs, hb, -⟩ := Host.no_stage (h := h) hq
    exact ⟨fun h => (nomatch hs.symm.trans h.1), fun h => (nomatch hb.symm.trans h)⟩

/-- **A timeout ends the phase exactly as the last wait of it times out.** -/
theorem timesOut_iff {t : Tally} {n : Nat} (hm : StartMove h c m) (hs : t.Sound n) (ha : t.At n c.point)
    (hn : h.session.config.handshakeRetries = n) :
    h.stage? c = some stage ∧ m.pointAfter c = some (.shutting (.error (.session (.link .timeout)))) ↔
      (h.overdue c).bind Purpose.stage? = some stage ∧
        (t.add m.asks ((h.overdue c).bind Purpose.stage?)).expired stage = n + 1 := by
  have hon : h.overdue c = none → m.pointAfter c ≠ some (.shutting (.error (.session (.link .timeout)))) →
      (h.stage? c = some stage ∧ m.pointAfter c = some (.shutting (.error (.session (.link .timeout)))) ↔
        (h.overdue c).bind Purpose.stage? = some stage ∧
          (t.add m.asks ((h.overdue c).bind Purpose.stage?)).expired stage = n + 1) := fun ho hp =>
    ⟨fun h => absurd h.2 hp, fun h => by rw [ho] at h; cases h.1⟩
  cases hm with
  | asks hnext hb ho hf => exact hon ho (by rw [Move.pointAfter, hf]; exact nofun)
  | goesOn hq hnext hb ho hr hp hp' hf => exact hon ho (by rw [hp]; rintro ⟨⟩; cases hp')
  | @pauses stage' retries alarm hq hnext hb ho hlt hf =>
    -- it is not the last
    have hexpired := ((ha.trying hq).expire hs).2.2
    have hasks : m.asks = none := by rw [Move.asks, hf]
    have hstage : (h.overdue c).bind Purpose.stage? = some stage' := by rw [ho]; rfl
    rw [hasks, hstage, Move.pointAfter, hf]
    refine ⟨fun h => (nomatch h.2), fun ⟨he, hlast⟩ => ?_⟩
    cases he
    rw [hexpired, ← hn] at hlast
    exact absurd (Nat.succ.inj hlast) (Nat.ne_of_lt hlt)
  | @givesUp stage' retries hq hnext hb ho hge hf =>
    obtain ⟨-, -, hexpired⟩ := (ha.trying hq).expire hs
    have hle : retries + 1 ≤ n + 1 := (ha.trying hq).asked ▸ hs.bounded stage'
    have hasks : m.asks = none := by rw [Move.asks, hf]
    have hstage : (h.overdue c).bind Purpose.stage? = some stage' := by rw [ho]; rfl
    rw [hasks, hstage, Move.pointAfter, hf, Host.stage?, hnext, hq]
    constructor
    · rintro ⟨⟨⟩, -⟩
      refine ⟨rfl, ?_⟩
      show (t.add none (some stage')).expired stage' = n + 1
      omega
    · rintro ⟨⟨⟩, -⟩
      exact ⟨rfl, rfl⟩
  | breaks hb he hs ho hf =>
    exact hon ho (by rw [Move.pointAfter, hf]; rintro ⟨⟩; exact he rfl)
  | described hq hnext hb ho hs hf => exact hon ho (by rw [Move.pointAfter, hf]; exact nofun)
  | registers hq hp =>
    obtain ⟨hs, -, ho⟩ := Host.no_stage (h := h) hq
    have hnone : (h.overdue c).bind Purpose.stage? = none := by rw [ho]; rfl
    exact ⟨fun h => (nomatch hs.symm.trans h.1), fun h => (nomatch hnone.symm.trans h.1)⟩

end StartMove

end TwinLink
