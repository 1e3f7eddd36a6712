import TwinLink.Proofs.Host.Holders

/-!
# The life of a session

A session goes from disconnected to operational in the order of the handshake, and to faulted from anywhere. The phase
is set by the call that starts the session, by a close and by the dispatcher, and none of them looks at it first. So a
fault is final unless a start still finds what it needs to go on: a reply that had already been delivered, or nothing
left to register. `Moment.Overtakes` says when that happens, and `Host.lawful_iff` that nothing else can go wrong.

* `Host.phaseChanges` : the changes of phase that the history records; `Host.phaseChanges_path`;
* `Point.phase?` : the phase that a start is in at a point of its handshake;
* `Orderly` : one start at a time, and the session in its phase unless it is faulted;
* `Overtakes`, `Moment.Overtakes` : a start goes on in a session that is faulted;
* `Host.lawful_iff` : the phases of a run are in order exactly if no start overtakes a fault;
* `Host.closedWhilePublishing_operational` : a run in which one does.
-/

namespace TwinLink

/-! ## Changes of phase -/

/-- The change of phase that an entry of the history records. -/
def Happening.phaseChange? : Happening → Option (Phase × Phase)
  | .logged (.phaseChanged before after) => some (before, after)
  | _ => none

/-- The changes of phase among some happenings. -/
def changesOf (notes : List Happening) : List (Phase × Phase) := notes.filterMap Happening.phaseChange?

/-- The changes of phase so far, oldest first. -/
def Host.phaseChanges (h : Host) : List (Phase × Phase) := (changesOf (h.history.map (·.what))).reverse

/-- Changes that lead from one phase to another, oldest first. -/
def Phase.Path : Phase → List (Phase × Phase) → Phase → Prop
  | a, [], b => a = b
  | a, x :: r, b => x.1 = a ∧ Phase.Path x.2 r b

theorem Phase.Path.append {a b c : Phase} {xs ys : List (Phase × Phase)} (hx : Phase.Path a xs b)
    (hy : Phase.Path b ys c) : Phase.Path a (xs ++ ys) c := by
  induction xs generalizing a with
  | nil => exact hx ▸ hy
  | cons x xs ih => exact ⟨hx.1, ih hx.2⟩

@[simp] theorem changesOf_nil : changesOf [] = [] := rfl

@[simp] theorem changesOf_append (xs ys : List Happening) : changesOf (xs ++ ys) = changesOf xs ++ changesOf ys :=
  List.filterMap_append

@[simp] theorem changesOf_toldTwin (call : TwinCall) (v : Verdict) (notes : List Happening) :
    changesOf (.toldTwin call v :: notes) = changesOf notes := rfl

@[simp] theorem changesOf_answered (answer : Answer) (notes : List Happening) :
    changesOf (.answered answer :: notes) = changesOf notes := rfl

theorem changesOf_phaseChange (a b : Phase) : changesOf (phaseChange a b) = if a = b then [] else [(a, b)] := by
  unfold phaseChange
  split <;> rfl

/-- What is logged when a phase is entered leads there. -/
theorem path_phaseChange (a b : Phase) : Phase.Path a (changesOf (phaseChange a b)).reverse b := by
  rw [changesOf_phaseChange]
  split
  · assumption
  · exact ⟨rfl, rfl⟩

/-- An unsolicited packet is never dropped with a remark about the phase. -/
theorem Descriptor.understand_remark {d : Descriptor} {p : Packet} {r : Remark} (hu : d.understand p = .error r) :
    Happening.phaseChange? (.logged r) = none := by
  unfold understand understandEvent understandProperty at hu
  split at hu <;> (try split at hu) <;> (try split at hu) <;> (try split at hu) <;> cases hu <;> rfl

/-! ## Starts -/

/-- The phase in which a request of the handshake is made. -/
def Stage.phase : Stage → Phase
  | .reset => .resetting
  | .describe => .awaitingDescriptor

/-- The phase of the handshake that an exchange belongs to. -/
def Purpose.phase? : Purpose → Option Phase
  | .handshake stage _ => some stage.phase
  | _ => none

/-- The phase that a start is in at a point of its handshake. Other calls, and a start that is only just made or has
failed, are in none. -/
def Point.phase? : Point → Option Phase
  | .entering _ _ _ purpose => purpose.phase?
  | .writing _ _ purpose => purpose.phase?
  | .awaiting _ _ _ purpose => purpose.phase?
  | .pausing _ stage _ => some stage.phase
  | .registering .. => some .registering
  | _ => none

/-- Where a start would go on whatever the phase: the reply to its request is in hand and not an error, or nothing is
left to register. -/
inductive Overtakes (h : Host) : Point → Prop
  | acknowledged (ticket : Ticket) (limit : Option Nat) (alarm : Option Alarm) (retries : Nat) (p : Packet)
      (hd : h.link.delivery? ticket.id = some (.ok p)) :
      Overtakes h (.awaiting ticket limit alarm (.handshake .reset retries))
  | described (ticket : Ticket) (limit : Option Nat) (alarm : Option Alarm) (retries : Nat) (p : Packet)
      (hd : h.link.delivery? ticket.id = some (.ok p)) (d : Descriptor)
      (hp : Descriptor.parse h.session.config.revision p.payload = .ok d) :
      Overtakes h (.awaiting ticket limit alarm (.handshake .describe retries))
  | registered (d : Descriptor) : Overtakes h (.registering d [] none)

/-- In a faulted session, the next step is that of a start that goes on. -/
def Moment.Overtakes (m : Moment) : Prop :=
  m.host.session.phase = .faulted ∧ ∃ (id : Nat) (inputFirst : Bool) (c : Call),
    m.action = .advance (.call id) inputFirst ∧ m.host.call? id = some c ∧ TwinLink.Overtakes m.host c.point

/-- A start ends with success. -/
def Moment.Starts (m : Moment) : Prop := ∃ n ∈ m.news, ∃ d, n.what = .answered (.ok (.device d))

/-! ## What a step does to the phase -/

/-- The phase of the handshake that a call at `q` is in after a move. -/
def Move.phaseAt (m : Move) (q : Point) : Option Phase :=
  match m.fate with
  | .goes p _ => p.phase?
  | .ends _ => none
  | .stays => q.phase?

/-- An answer that only a start gives. -/
def Answer.isDevice : Answer → Bool
  | .ok (.device _) => true
  | _ => false

/-- Only a start that goes on whatever the phase, or a call that was about to give such an answer, ends with it. -/
def Move.spares (m : Move) (h : Host) (q : Point) : Prop :=
  match m.fate with
  | .goes (.shutting answer) _ => answer.isDevice = false
  | .ends answer => answer.isDevice = true → q = .shutting answer ∨ Overtakes h q
  | _ => True

/-- What a move of a call at `q` does to the phase. It leaves the phase alone; or it faults the session; or it takes the
session to the phase `p`, and perhaps on to a fault. -/
inductive PhaseMove (h : Host) (q : Point) (m : Move) : Prop
  | quiet (hs : m.session.phase = h.session.phase) (ht : m.session.portTaken = h.session.portTaken)
      (hd : m.session.dispatch = h.session.dispatch) (hn : changesOf m.notes = [])
      (hp : m.phaseAt q = none ∨ m.phaseAt q = q.phase?) (ha : m.spares h q)
  | faults (hs : m.session.phase = .faulted)
      (ht : m.session.portTaken = true ∨ m.session.portTaken = h.session.portTaken ∧ q.phase? ≠ none)
      (hn : changesOf m.notes = changesOf (phaseChange h.session.phase .faulted)) (hp : m.phaseAt q = none)
      (ha : m.spares h q)
  | advances (p : Phase)
      (hq : q = .begun .start ∧ h.session.portTaken = false ∧ h.session.phase ≠ .faulted ∧ p = .resetting ∨
        Overtakes h q ∧ ∃ p₀, q.phase? = some p₀ ∧ p₀.Leads p ∧ p ≠ .faulted)
      (hs : m.session.phase = p ∨ m.session.phase = .faulted)
      (ht : m.session.portTaken = true ∨ m.session.portTaken = h.session.portTaken ∧ q.phase? ≠ none)
      (hn : changesOf m.notes
        = changesOf (phaseChange p m.session.phase) ++ changesOf (phaseChange h.session.phase p))
      (hp : m.phaseAt q = none ∨ m.phaseAt q = some m.session.phase) (ha : m.spares h q)

variable {h : Host} {c : Call} {q : Point} {m : Move}

@[simp] theorem changesOf_handshakeFailed (e : SessionError) (notes : List Happening) :
    changesOf (.logged (.handshakeFailed e) :: notes) = changesOf notes := rfl

/-- A failed exchange faults the session if it was a request of the handshake that is not repeated. -/
theorem Fails.phases {l : Link} {notes : List Happening} {purpose : Purpose} {e : LinkError}
    (hf : Fails h l notes purpose e m) (hn : changesOf notes = []) (hq : q.phase? = purpose.phase?) :
    PhaseMove h q m := by
  cases hf with
  | direct e => exact .quiet rfl rfl rfl hn (.inl rfl) (by simp [Move.spares, Answer.isDevice])
  | operation plan e => exact .quiet rfl rfl rfl hn (.inl rfl) (by simp [Move.spares, Answer.isDevice])
  | retry stage retries hr => exact .quiet rfl rfl rfl hn (.inr hq.symm) trivial
  | fault stage retries e he =>
    refine .faults rfl (.inr ⟨rfl, by rw [hq]; exact nofun⟩) ?_ rfl rfl
    simp [Move.faulting, hn]

/-- A request of the handshake is made in its phase, or the session is faulted instead. -/
theorem Attempts.phases {l : Link} {s : Session} {notes : List Happening} {stage : Stage} {retries : Nat}
    (ha : Attempts l s notes stage retries m) :
    m.session.portTaken = s.portTaken ∧ m.spares h q ∧
      (m.session = s ∧ m.notes = notes ∧ m.phaseAt q = some stage.phase ∨
      m.session.phase = .faulted ∧ m.phaseAt q = none ∧
        changesOf m.notes = changesOf (phaseChange s.phase .faulted) ++ changesOf notes) := by
  cases ha with
  | opened ho => exact ⟨rfl, trivial, .inl ⟨rfl, rfl, rfl⟩⟩
  | closed reason hc => exact ⟨rfl, rfl, .inr ⟨rfl, rfl, by simp [Move.faulting]⟩⟩

/-- A start that has entered a phase of the handshake makes the request of that phase. -/
theorem Attempts.advances {l : Link} {s : Session} {notes : List Happening} {stage : Stage} {retries : Nat}
    (ha : Attempts l s notes stage retries m) (hs : s.phase = stage.phase)
    (hn : changesOf notes = changesOf (phaseChange h.session.phase stage.phase))
    (ht : s.portTaken = true ∨ s.portTaken = h.session.portTaken ∧ q.phase? ≠ none)
    (hq : q = .begun .start ∧ h.session.portTaken = false ∧ h.session.phase ≠ .faulted ∧ stage.phase = .resetting ∨
      Overtakes h q ∧ ∃ p₀, q.phase? = some p₀ ∧ p₀.Leads stage.phase ∧ stage.phase ≠ .faulted) :
    PhaseMove h q m := by
  obtain ⟨htm, hsp, ⟨hms, hmn, hp⟩ | ⟨hms, hp, hmn⟩⟩ := ha.phases (h := h) (q := q)
  · refine .advances stage.phase hq (.inl (by rw [hms, hs])) (by rwa [htm]) ?_ (.inr (by rw [hp, hms, hs])) hsp
    rw [hmn, hn, hms, hs]
    simp [phaseChange]
  · refine .advances stage.phase hq (.inr hms) (by rwa [htm]) ?_ (.inl hp) hsp
    rw [hmn, hn, hms, hs]

theorem BeginMove.phases {r : Request} (hm : BeginMove h c r m) : PhaseMove h (.begun r) m := by
  cases hm with
  | start hp ht ha =>
    exact ha.advances rfl rfl (.inl rfl) (.inl ⟨rfl, ht, hp, rfl⟩)
  | closeIdle hl => exact .faults rfl (.inl rfl) rfl rfl (by simp [Move.spares, Answer.isDevice])
  | close hl => exact .faults rfl (.inl rfl) rfl rfl rfl
  | shutDown => exact .quiet rfl rfl rfl rfl (.inl rfl) rfl
  | receive type limit ho => exact .quiet rfl rfl rfl rfl (.inl rfl) trivial
  | await ticket limit => exact .quiet rfl rfl rfl rfl (.inl rfl) trivial
  | send p => exact .quiet rfl rfl rfl rfl (.inl rfl) trivial
  | exchange p expect limit ho => exact .quiet rfl rfl rfl rfl (.inl rfl) trivial
  | operate op plan hp => exact .quiet rfl rfl rfl rfl (.inl rfl) trivial
  | twinOperate op plan hp ha => exact .quiet rfl rfl rfl rfl (.inl rfl) trivial
  | _ => exact .quiet rfl rfl rfl rfl (.inl rfl) (by simp [Move.spares, Answer.isDevice])

/-- **What a move of a call does to the phase.** -/
theorem CallMove.phases (hm : CallMove h c q m) : PhaseMove h q m := by
  cases hm with
  | begin hm => exact hm.phases
  | locked plan ha ho => exact .quiet (by simp) (by simp) (by simp) rfl (.inl rfl) trivial
  | lockedClosed plan ha reason hc =>
    exact .quiet (by simp) (by simp) (by simp) rfl (.inl rfl) (by simp [Move.spares, Answer.isDevice])
  | lined plan ha => exact .quiet (by simp) (by simp) (by simp) rfl (.inl rfl) trivial
  | shutOut frame ticket limit purpose hc hf => exact hf.phases rfl rfl
  | unwritten ticket limit purpose e hr hf => exact hf.phases rfl rfl
  | failed ticket limit alarm purpose e hd hf => exact hf.phases rfl rfl
  | timedOut ticket limit alarm purpose hd ha hf => exact hf.phases rfl rfl
  | acknowledged ticket limit alarm retries p hd ha =>
    refine ha.advances rfl ?_ (.inr ⟨rfl, nofun⟩)
      (.inr ⟨.acknowledged ticket limit alarm retries p hd, _, rfl, .describe, nofun⟩)
    simp [changesOf, Happening.phaseChange?, Stage.phase]
  | misdescribed ticket limit alarm retries p hd e hp =>
    exact .faults rfl (.inr ⟨rfl, nofun⟩) (by simp [Move.faulting]) rfl rfl
  | described ticket limit alarm retries p hd d hp =>
    refine .advances .registering (.inr ⟨.described ticket limit alarm retries p hd d hp, _, rfl, .register, nofun⟩)
      (.inl rfl) (.inr ⟨rfl, nofun⟩) ?_ (.inr rfl) trivial
    simp [changesOf, Happening.phaseChange?, phaseChange]
  | paused alarm stage retries ha hm =>
    obtain ⟨htm, hsp, ⟨hms, hmn, hp⟩ | ⟨hms, hp, hmn⟩⟩ := hm.phases (h := h) (q := .pausing alarm stage retries)
    · exact .quiet (by rw [hms]) (by rw [hms]) (by rw [hms]) (by rw [hmn]; rfl) (.inr hp) hsp
    · exact .faults hms (.inr ⟨htm, nofun⟩) (by simpa using hmn) hp hsp
  | refused d call todo pending ha text hr =>
    exact .faults rfl (.inr ⟨rfl, nofun⟩) (by simp [Move.faulting]) rfl rfl
  | started d =>
    refine .advances .operational (.inr ⟨.registered d, _, rfl, .operate, nofun⟩) (.inl rfl) (.inr ⟨rfl, nofun⟩) ?_
      (.inl rfl) fun _ => .inr (.registered d)
    simp [changesOf, Happening.phaseChange?, phaseChange]
  | updated plan value pending ha =>
    refine .quiet rfl rfl rfl ?_ (.inl rfl) (by simp [Move.spares, Answer.isDevice])
    cases pending.refusal <;> rfl
  | told answer ho => exact .quiet rfl rfl rfl rfl (.inl rfl) fun _ => .inl rfl
  | untold answer hc => exact .quiet rfl rfl rfl rfl (.inl rfl) fun _ => .inl rfl
  | telling answer ho => exact .quiet rfl rfl rfl rfl (.inl rfl) trivial
  | sent limit purpose hr => exact .quiet rfl rfl rfl rfl (.inl rfl) (by simp [Move.spares, Answer.isDevice])
  | received ticket limit alarm p hd => exact .quiet rfl rfl rfl rfl (.inl rfl) (by simp [Move.spares, Answer.isDevice])
  | unreadable ticket limit alarm plan p hd e hr =>
    exact .quiet rfl rfl rfl rfl (.inl rfl) (by simp [Move.spares, Answer.isDevice])
  | answered ticket limit alarm plan p hd value hr hk =>
    exact .quiet rfl rfl rfl rfl (.inl rfl) (by simp [Move.spares, Answer.isDevice])
  | taken ticket limit alarm plan p hd value hr hk hc => exact .quiet rfl rfl rfl rfl (.inl rfl) trivial
  -- the call goes on within its phase
  | _ => exact .quiet rfl rfl rfl rfl (.inr rfl) trivial

theorem PhaseMove.path (hm : PhaseMove h q m) :
    Phase.Path h.session.phase (changesOf m.notes).reverse m.session.phase := by
  cases hm with
  | quiet hs ht hd hn hp ha =>
    rw [hn, hs]
    rfl
  | faults hs ht hn hp ha =>
    rw [hn, hs]
    exact path_phaseChange _ _
  | advances p hq hs ht hn hp ha =>
    rw [hn, List.reverse_append]
    exact (path_phaseChange _ _).append (path_phaseChange _ _)

theorem PhaseMove.spares (hm : PhaseMove h q m) : m.spares h q := by
  cases hm <;> assumption

/-- Outside the handshake no call takes a faulted session to another phase. -/
theorem CallMove.faulted (hm : CallMove h c q m) (hq : q.phase? = none) (hp : h.session.phase = .faulted) :
    m.session.phase = .faulted := by
  cases hm.phases with
  | quiet hs => exact hs.trans hp
  | faults hs => exact hs
  | advances p hq' =>
    rcases hq' with ⟨-, -, hne, -⟩ | ⟨-, p₀, hsome, -⟩
    · exact absurd hp hne
    · rw [hq] at hsome
      cases hsome

/-- A step of the dispatcher leaves the phase alone or faults the session. -/
theorem DispatchMove.phases {p : DispatchPoint} {t : DispatchTurn} (hm : DispatchMove h p t) :
    t.session.portTaken = h.session.portTaken ∧
      (t.session.phase = h.session.phase ∧ changesOf t.notes = [] ∨
        t.session.phase = .faulted ∧ changesOf t.notes = changesOf (phaseChange h.session.phase .faulted)) ∧
      ∀ answer, .answered answer ∉ t.notes := by
  cases hm with
  | deserted he ha => exact ⟨rfl, .inl ⟨rfl, rfl⟩, by simp⟩
  | premature he hp => exact ⟨rfl, .inl ⟨rfl, rfl⟩, by simp⟩
  | undescribed he hd => exact ⟨rfl, .inl ⟨rfl, rfl⟩, by simp⟩
  | drops he hp hd hu =>
    refine ⟨rfl, .inl ⟨rfl, ?_⟩, by simp⟩
    unfold changesOf
    rw [List.filterMap_cons, Descriptor.understand_remark hu]
    rfl
  | reports he hp hd hu => exact ⟨rfl, .inl ⟨rfl, by simp [changesOf, Happening.phaseChange?]⟩, by simp⟩
  | ends he hn =>
    refine ⟨rfl, .inr ⟨rfl, ?_⟩, ?_⟩
    · subst hn
      split
      · rename_i hp
        simp [changesOf_phaseChange, hp]
      · simp [changesOf, Happening.phaseChange?]
    · subst hn
      unfold phaseChange
      split <;> simp
  | reported ha =>
    refine ⟨rfl, .inl ⟨rfl, ?_⟩, ?_⟩
    · rename_i call pending
      cases pending.refusal with
      | none => rfl
      | some text => cases call <;> rfl
    · rename_i call pending
      cases pending.refusal <;> simp

/-! ## The order of phases -/

/-- The session is in the phase of its start, if one is under way, or faulted. Until the port is taken nothing is under
way at all. -/
structure Orderly (h : Host) : Prop where
  numbered : h.Numbered
  idle : h.session.portTaken = false →
    h.session.phase = .disconnected ∧ h.session.dispatch = .absent ∧ ∀ c ∈ h.calls, c.point.phase? = none
  alone : ∀ c ∈ h.calls, ∀ c' ∈ h.calls, c.point.phase? ≠ none → c'.point.phase? ≠ none → c = c'
  inPhase : ∀ c ∈ h.calls, ∀ p, c.point.phase? = some p → h.session.phase = p ∨ h.session.phase = .faulted
  spared : ∀ c ∈ h.calls, ∀ answer, c.point = .shutting answer → answer.isDevice = false

namespace Orderly

variable {h' : Host} {a : Action}

theorem ofSession (config : SessionConfig) (twin : Twin) : Orderly (.ofSession config twin) :=
  ⟨⟨List.Pairwise.nil, by simp [Host.ofSession]⟩, fun _ => ⟨rfl, rfl, by simp [Host.ofSession]⟩,
    by simp [Host.ofSession], by simp [Host.ofSession], by simp [Host.ofSession]⟩

/-- Calls leave and the phase stays or becomes faulted. -/
theorem of_subset (ho : Orderly h) (hn : h'.Numbered) (hc : ∀ c ∈ h'.calls, c ∈ h.calls ∨ c.point.phase? = none ∧
      ∀ answer, c.point ≠ .shutting answer)
    (hp : h'.session.phase = h.session.phase ∨ h'.session.phase = .faulted)
    (hi : h'.session.portTaken = false → h.session.portTaken = false ∧ h'.session.phase = h.session.phase ∧
      h'.session.dispatch = h.session.dispatch) : Orderly h' where
  numbered := hn
  idle ht := by
    obtain ⟨ht, hp, hd⟩ := hi ht
    obtain ⟨hph, hdi, hcs⟩ := ho.idle ht
    exact ⟨hp.trans hph, hd.trans hdi, fun c hx => (hc c hx).elim (hcs c) (·.1)⟩
  alone c hx c' hx' hq hq' :=
    ho.alone c ((hc c hx).resolve_right fun hr => hq hr.1) c' ((hc c' hx').resolve_right fun hr => hq' hr.1) hq hq'
  inPhase c hx p hq := by
    have hx := (hc c hx).resolve_right fun hr => by rw [hr.1] at hq; cases hq
    rcases hp with hp | hp
    · rw [hp]
      exact ho.inPhase c hx p hq
    · exact .inr hp
  spared c hx answer hq := ho.spared c ((hc c hx).resolve_right fun hr => hr.2 _ hq) answer hq

/-- A move puts its call into a phase of the handshake only with the session, and while nothing else is in one. -/
theorem settled (ho : Orderly h) (hc : c ∈ h.calls) (hm : PhaseMove h c.point m) {p : Phase}
    (hp : m.phaseAt c.point = some p) :
    (m.session.phase = p ∨ m.session.phase = .faulted) ∧ ∀ x ∈ h.calls, x.id ≠ c.id → x.point.phase? = none := by
  have halone : c.point.phase? ≠ none → ∀ x ∈ h.calls, x.id ≠ c.id → x.point.phase? = none := fun hq x hx hne => by
    by_contra hxq
    exact hne (congrArg Call.id (ho.alone x hx c hc hxq hq))
  cases hm with
  | quiet hs ht hd hn hq ha =>
    have hq : c.point.phase? = some p := (hq.resolve_left (by rw [hp]; exact nofun)).symm.trans hp
    exact ⟨hs ▸ ho.inPhase c hc p hq, halone (by rw [hq]; exact nofun)⟩
  | faults hs ht hn hq ha => rw [hq] at hp; cases hp
  | advances p' hg hs ht hn hq ha =>
    have hq : m.phaseAt c.point = some m.session.phase := hq.resolve_left (by rw [hp]; exact nofun)
    refine ⟨.inl (Option.some.inj (hq.symm.trans hp)), ?_⟩
    rcases hg with ⟨-, ht, -, -⟩ | ⟨-, p₀, hq₀, -⟩
    · exact fun x hx _ => (ho.idle ht).2.2 x hx
    · exact halone (by rw [hq₀]; exact nofun)

/-- The phase does not go on under a start that does not move. -/
theorem undisturbed (ho : Orderly h) (hc : c ∈ h.calls) (hm : PhaseMove h c.point m) {x : Call} (hx : x ∈ h.calls)
    (hne : x.id ≠ c.id) (hq : x.point.phase? ≠ none) :
    m.session.phase = h.session.phase ∨ m.session.phase = .faulted := by
  cases hm with
  | quiet hs ht hd hn hq ha => exact .inl hs
  | faults hs ht hn hq ha => exact .inr hs
  | advances p' hg hs ht hn hq' ha =>
    rcases hg with ⟨-, ht, -, -⟩ | ⟨-, p₀, hq₀, -⟩
    · exact absurd ((ho.idle ht).2.2 x hx) hq
    · exact absurd (congrArg Call.id (ho.alone x hx c hc hq (by rw [hq₀]; exact nofun))) hne

theorem idle_call (ho : Orderly h) (hc : c ∈ h.calls) (hm : PhaseMove h c.point m)
    (ht : m.session.portTaken = false) : h.session.portTaken = false ∧ m.session.phase = h.session.phase ∧
      m.session.dispatch = h.session.dispatch ∧ m.phaseAt c.point = none := by
  have hbusy : ¬(m.session.portTaken = h.session.portTaken ∧ c.point.phase? ≠ none) := fun ⟨ht', hne⟩ =>
    hne ((ho.idle (ht'.symm.trans ht)).2.2 c hc)
  cases hm with
  | quiet hs ht' hd hn hq ha =>
    have ht' := ht'.symm.trans ht
    exact ⟨ht', hs, hd, hq.elim id fun hq => hq.trans ((ho.idle ht').2.2 c hc)⟩
  | faults hs ht' hn hq ha => exact absurd (ht'.resolve_left (by rw [ht]; exact nofun)) hbusy
  | advances p' hg hs ht' hn hq ha => exact absurd (ht'.resolve_left (by rw [ht]; exact nofun)) hbusy

theorem call (ho : Orderly h) (hn : h'.Numbered) (hc : c ∈ h.calls) (hm : CallMove h c c.point m)
    (hl : h.Leaves c m h') : Orderly h' := by
  have hph : h'.session.phase = m.session.phase := by rw [hl.session, m.sessionAfter_phase]
  have hpt : h'.session.portTaken = m.session.portTaken := by rw [hl.session, m.sessionAfter_portTaken]
  have hdi : h'.session.dispatch = m.session.dispatch := by rw [hl.session, m.sessionAfter_dispatch]
  have hpm := hm.phases
  have hsp := hpm.spares
  -- a call after the move is another one, or the one that moved
  have hx : ∀ x ∈ h'.calls, x ∈ h.calls ∧ x.id ≠ c.id ∨ x.id = c.id ∧ x.point.phase? = m.phaseAt c.point ∧
      ∀ answer, x.point = .shutting answer → answer.isDevice = false := by
    intro x hx
    rw [hl.calls] at hx
    rcases ho.numbered.mem_callsAfter hc hx with hx | ⟨p, keeps, hf, rfl⟩ | ⟨hf, rfl⟩
    · exact .inl hx
    · refine .inr ⟨rfl, by rw [Move.phaseAt, hf], ?_⟩
      rintro answer rfl
      rw [Move.spares, hf] at hsp
      exact hsp
    · exact .inr ⟨rfl, by rw [Move.phaseAt, hf], ho.spared x hc⟩
  refine ⟨hn, fun ht => ?_, ?_, ?_, fun x hmem answer hxq => ?_⟩
  · obtain ⟨ht, hs, hd, hq⟩ := ho.idle_call hc hpm (hpt.symm.trans ht)
    obtain ⟨hi, hd', hcs⟩ := ho.idle ht
    refine ⟨hph.trans (hs.trans hi), hdi.trans (hd.trans hd'), fun x hmem => ?_⟩
    rcases hx x hmem with hx | hx
    · exact hcs x hx.1
    · exact hx.2.1.trans hq
  · -- of two calls in the handshake neither is another than the one that moved, unless neither is
    intro x hmem y hmem' hxq hyq
    rcases hx x hmem with hx' | hx' <;> rcases hx y hmem' with hy' | hy'
    · exact ho.alone x hx'.1 y hy'.1 hxq hyq
    · obtain ⟨p, hp⟩ := Option.ne_none_iff_exists'.mp (hy'.2.1 ▸ hyq)
      exact absurd ((ho.settled hc hpm hp).2 x hx'.1 hx'.2) hxq
    · obtain ⟨p, hp⟩ := Option.ne_none_iff_exists'.mp (hx'.2.1 ▸ hxq)
      exact absurd ((ho.settled hc hpm hp).2 y hy'.1 hy'.2) hyq
    · exact hn.eq_of_id hmem hmem' (hx'.1.trans hy'.1.symm)
  · intro x hmem p hxq
    rw [hph]
    rcases hx x hmem with hx | hx
    · rcases ho.undisturbed hc hpm hx.1 hx.2 (by rw [hxq]; exact nofun) with hs | hs
      · exact hs ▸ ho.inPhase x hx.1 p hxq
      · exact .inr hs
    · exact (ho.settled hc hpm (hx.2.1.symm.trans hxq)).1
  · rcases hx x hmem with hx | hx
    · exact ho.spared x hx.1 answer hxq
    · exact hx.2.2 answer hxq

/-- **The order of phases is kept by every action.** -/
theorem acts (ha : Acts h a h') (ho : Orderly h) : Orderly h' := by
  have hn := ho.numbered.acts ha
  have hsame : ∀ c ∈ h.calls, c ∈ h.calls ∨ c.point.phase? = none ∧ ∀ answer, c.point ≠ .shutting answer :=
    fun c hc => .inl hc
  cases ha with
  | loop inputFirst hm ht =>
    refine ho.of_subset hn (by rwa [ht.calls]) (.inl (by rw [ht.session])) fun hi => ?_
    rw [ht.session] at hi ⊢
    exact ⟨hi, rfl, rfl⟩
  | dispatcher inputFirst hm ht =>
    obtain ⟨htp, hs, -⟩ := hm.phases
    rw [← ht.session] at htp hs
    refine ho.of_subset hn (by rwa [ht.calls]) (hs.imp And.left And.left) fun hi => ?_
    -- the dispatcher does not run before the port is taken
    have hd := (ho.idle (htp.symm.trans hi)).2.1
    rw [hd] at hm
    cases hm
  | call inputFirst hc hm hl => exact ho.call hn (Host.call?_mem hc) hm hl
  | make r hm ready =>
    refine ho.of_subset hn (fun c hc => ?_) (.inl rfl) fun ht => ⟨ht, rfl, rfl⟩
    rcases List.mem_append.mp hc with hc | hc
    · exact .inl hc
    · obtain rfl := List.mem_singleton.mp hc
      exact .inr ⟨rfl, nofun⟩
  | abandon hc released hr ready =>
    refine ho.of_subset hn (fun c hc => .inl (List.mem_filter.mp hc).1) (.inl (by simp)) fun ht => ?_
    simpa using ht
  | _ => exact ho.of_subset hn hsame (.inl rfl) fun ht => ⟨ht, rfl, rfl⟩

end Orderly

/-! ## Faults are final -/

theorem Phase.Path.eq_faulted {p : Phase} {xs : List (Phase × Phase)} (hx : Phase.Path .faulted xs p)
    (hl : ∀ x ∈ xs, x.1.Leads x.2) : p = .faulted := by
  induction xs with
  | nil => exact hx.symm
  | cons x xs ih =>
    obtain ⟨a, b⟩ := x
    obtain ⟨rfl, hx⟩ := hx
    -- nothing but a fault follows a fault
    have hb : b = .faulted := by cases hl _ List.mem_cons_self; rfl
    exact ih (hb ▸ hx) fun x hmem => hl x (List.mem_cons_of_mem _ hmem)

theorem changesOf_what (a : Actor) (time : Nat) (notes : List Happening) :
    changesOf ((notes.map (⟨a, time, ·⟩)).map Note.what) = changesOf notes := by
  rw [List.map_map]
  exact congrArg changesOf (List.map_id _)

/-- A move logs the changes of phase that it makes. -/
theorem Move.changes (m : Move) : changesOf m.happenings = changesOf m.notes := by
  unfold happenings
  split <;> rfl

theorem DispatchMove.path {p : DispatchPoint} {t : DispatchTurn} (hm : DispatchMove h p t) :
    Phase.Path h.session.phase (changesOf t.notes).reverse t.session.phase := by
  obtain ⟨-, ⟨hs, hn⟩ | ⟨hs, hn⟩, -⟩ := hm.phases <;> rw [hn, hs]
  · rfl
  · exact path_phaseChange _ _

theorem LoopMove.changes {p : LoopPoint} {t : LoopTurn} (hm : LoopMove h p t) :
    changesOf t.notes = [] ∧ ∀ answer, .answered answer ∉ t.notes := by
  cases hm <;> simp [Host.loopEnd, changesOf, Happening.phaseChange?]

/-- Everything that an action does to the phase is logged, and nothing else is. -/
theorem Acts.path {h' : Host} {a : Action} (ha : Acts h a h') : ∃ notes, h'.history = notes ++ h.history ∧
    Phase.Path h.session.phase (changesOf (notes.map (·.what))).reverse h'.session.phase := by
  cases ha with
  | loop inputFirst hm ht =>
    refine ⟨_, ht.history, ?_⟩
    rw [changesOf_what, hm.changes.1, ht.session]
    rfl
  | dispatcher inputFirst hm ht =>
    refine ⟨_, ht.history, ?_⟩
    rw [changesOf_what, ht.session]
    exact hm.path
  | call inputFirst hc hm hl =>
    refine ⟨_, hl.history, ?_⟩
    rw [changesOf_what, Move.changes, hl.session, Move.sessionAfter_phase]
    exact hm.phases.path
  | abandon hc released hr ready => exact ⟨[], rfl, (Session.vacate_phase _ _).symm⟩
  | _ => exact ⟨[], rfl, rfl⟩

theorem leads_phaseChange {a b : Phase} (hab : a ≠ b → a.Leads b) :
    ∀ x ∈ changesOf (phaseChange a b), x.1.Leads x.2 := by
  rw [changesOf_phaseChange]
  split
  · simp
  · simpa using hab ‹_›

@[simp] theorem answered_notMem_phaseChange (answer : Answer) (a b : Phase) : .answered answer ∉ phaseChange a b := by
  unfold phaseChange
  split <;> simp

/-- A call is answered only at its end. -/
theorem Attempts.unanswered {l : Link} {s : Session} {notes : List Happening} {stage : Stage} {retries : Nat}
    (ha : Attempts l s notes stage retries m) {answer : Answer} (hn : .answered answer ∉ notes) :
    .answered answer ∉ m.notes := by
  cases ha with
  | opened ho => exact hn
  | closed reason hc => simp [Move.faulting, hn]

theorem Fails.unanswered {l : Link} {notes : List Happening} {purpose : Purpose} {e : LinkError}
    (hf : Fails h l notes purpose e m) {answer : Answer} (hn : .answered answer ∉ notes) :
    .answered answer ∉ m.notes := by
  cases hf with
  | fault stage retries e he => simp [Move.faulting, hn]
  | _ => simpa using hn

theorem CallMove.unanswered (hm : CallMove h c q m) (answer : Answer) : .answered answer ∉ m.notes := by
  cases hm with
  | begin hm =>
    cases hm with
    | start hp ht ha => exact ha.unanswered (by simp)
    | _ => simp
  | shutOut frame ticket limit purpose hc hf => exact hf.unanswered (by simp)
  | unwritten ticket limit purpose e hr hf => exact hf.unanswered (by simp)
  | failed ticket limit alarm purpose e hd hf => exact hf.unanswered (by simp)
  | timedOut ticket limit alarm purpose hd ha hf => exact hf.unanswered (by simp)
  | acknowledged ticket limit alarm retries p hd ha => exact ha.unanswered (by simp)
  | paused alarm stage retries ha hm => exact hm.unanswered (by simp)
  | updated plan value pending ha => cases pending.refusal <;> simp
  | _ => simp [Move.faulting]

/-- In a session in its order, a change that leads nowhere and a start that succeeds in a faulted session are the work
of a start that goes on whatever the phase. -/
theorem Orderly.lawful {h' : Host} {a : Action} (ho : Orderly h) (ha : Acts h a h')
    (hov : ¬(Moment.mk h a).Overtakes) : ∃ notes, h'.history = notes ++ h.history ∧
      (∀ x ∈ changesOf (notes.map (·.what)), x.1.Leads x.2) ∧
      (h.session.phase = .faulted → ∀ n ∈ notes, ∀ d, n.what ≠ .answered (.ok (.device d))) := by
  cases ha with
  | loop inputFirst hm ht =>
    refine ⟨_, ht.history, ?_, fun _ n hn d he => ?_⟩
    · rw [changesOf_what, hm.changes.1]
      simp
    · obtain ⟨x, hx, rfl⟩ := List.mem_map.mp hn
      obtain rfl : x = _ := he
      exact hm.changes.2 _ hx
  | dispatcher inputFirst hm ht =>
    obtain ⟨-, hs, hans⟩ := hm.phases
    refine ⟨_, ht.history, ?_, fun _ n hn d he => ?_⟩
    · rw [changesOf_what]
      rcases hs with ⟨-, hn⟩ | ⟨-, hn⟩ <;> rw [hn]
      · simp
      · exact leads_phaseChange fun _ => .fault _
    · obtain ⟨x, hx, rfl⟩ := List.mem_map.mp hn
      obtain rfl : x = _ := he
      exact hans _ hx
  | @call id inputFirst c m _ hc hm hl =>
    have hmem := Host.call?_mem hc
    have hno : h.session.phase = .faulted → ¬Overtakes h c.point := fun hp hq => hov ⟨hp, id, inputFirst, c, rfl, hc, hq⟩
    refine ⟨_, hl.history, ?_, fun hp n hn d he => ?_⟩
    · rw [changesOf_what, Move.changes]
      cases hm.phases with
      | quiet hs ht hd hn hq ha => rw [hn]; simp
      | faults hs ht hn hq ha =>
        rw [hn]
        exact leads_phaseChange fun _ => .fault _
      | advances p hg hs ht hn hq ha =>
        have hlead : h.session.phase.Leads p := by
          rcases hg with ⟨-, hi, -, rfl⟩ | ⟨hg, p₀, hq₀, hlead, -⟩
          · rw [(ho.idle hi).1]
            exact .reset
          · have hph := (ho.inPhase c hmem p₀ hq₀).resolve_right fun hp => hno hp hg
            rwa [hph]
        intro x hx
        rw [hn] at hx
        rcases List.mem_append.mp hx with hx | hx
        · refine leads_phaseChange (fun hne => ?_) x hx
          rw [hs.resolve_left hne.symm]
          exact .fault p
        · exact leads_phaseChange (fun _ => hlead) x hx
    · obtain ⟨x, hx, rfl⟩ := List.mem_map.mp hn
      obtain rfl : x = _ := he
      have hsp := hm.phases.spares
      unfold Move.happenings at hx
      unfold Move.spares at hsp
      split at hx
      · rename_i answer hf
        rw [hf] at hsp
        rcases List.mem_cons.mp hx with hx | hx
        · cases hx
          rcases hsp rfl with hq | hq
          · exact absurd (ho.spared c hmem _ hq) (by simp [Answer.isDevice])
          · exact hno hp hq
        · exact hm.unanswered _ hx
      · exact hm.unanswered _ hx
  | _ => exact ⟨[], rfl, by simp, by simp⟩

/-- A start that goes on in a faulted session does take it out of the fault. -/
theorem Overtakes.leaves (hq : Overtakes h q) (hm : CallMove h c q m) :
    ∃ p, p ≠ .faulted ∧ ∀ x ∈ changesOf (phaseChange h.session.phase p), x ∈ changesOf m.notes := by
  cases hq with
  | acknowledged ticket limit alarm retries p hd =>
    cases hm with
    | failed ticket limit alarm purpose e hd' hf => rw [hd] at hd'; cases hd'
    | timedOut ticket limit alarm purpose hd' ha hf => rw [hd] at hd'; cases hd'
    | acknowledged ticket limit alarm retries p hd' ha =>
      refine ⟨.awaitingDescriptor, nofun, fun x hx => ?_⟩
      cases ha <;> simp [Move.faulting, hx]
  | described ticket limit alarm retries p hd d hp =>
    cases hm with
    | failed ticket limit alarm purpose e hd' hf => rw [hd] at hd'; cases hd'
    | timedOut ticket limit alarm purpose hd' ha hf => rw [hd] at hd'; cases hd'
    | misdescribed ticket limit alarm retries p' hd' e hp' =>
      rw [hd] at hd'
      obtain rfl : p = p' := by simpa using hd'
      rw [hp] at hp'
      cases hp'
    | described ticket limit alarm retries p' hd' d' hp' =>
      exact ⟨.registering, nofun, fun x hx => by simp [hx]⟩
  | registered d =>
    cases hm with
    | started d => exact ⟨.operational, nofun, fun x hx => by simp [hx]⟩

/-- It never has to wait for that. -/
theorem Overtakes.ready (hq : Overtakes h c.point) : ∃ h', h.pointStep c = some h' := by
  unfold Host.pointStep
  generalize c.point = q at hq ⊢
  cases hq with
  | acknowledged ticket limit alarm retries p hd =>
    simp only [Host.waitStep, hd]
    exact ⟨_, rfl⟩
  | described ticket limit alarm retries p hd d hp =>
    simp only [Host.waitStep, hd]
    exact ⟨_, rfl⟩
  | registered d => exact ⟨_, rfl⟩

/-- A start that overtakes a fault leaves a change in the history that leads nowhere. -/
theorem Moment.Overtakes.unlawful {m : Moment} (ho : m.Overtakes) :
    ∃ x ∈ m.after.phaseChanges, ¬x.1.Leads x.2 := by
  obtain ⟨hp, id, inputFirst, c, ha, hc, hq⟩ := ho
  obtain ⟨h', hs⟩ := hq.ready
  have hafter : m.after = h' := by
    unfold Moment.after
    rw [ha]
    show (((m.host.call? id).bind m.host.pointStep).getD m.host) = h'
    rw [hc, Option.bind_some, hs]
    rfl
  obtain ⟨mv, hm, hl⟩ := Host.pointStep_move hs
  obtain ⟨p, hne, hx⟩ := hq.leaves hm
  refine ⟨(.faulted, p), ?_, fun hlead => by cases hlead; exact hne rfl⟩
  rw [hafter, Host.phaseChanges, List.mem_reverse, hl.history, List.map_append, changesOf_append, changesOf_what,
    Move.changes, List.mem_append]
  refine .inl (hx _ ?_)
  rw [hp, changesOf_phaseChange, if_neg (Ne.symm hne)]
  exact List.mem_singleton.mpr rfl

namespace Host

theorem orderly_run (config : SessionConfig) (twin : Twin) (as : List Action) :
    Orderly ((ofSession config twin).run as) :=
  (Setup.session config twin).tidy.run_inv (Orderly.ofSession config twin) (fun _ _ _ ha ho => ho.acts ha) as

theorem phaseChanges_append {h h' : Host} {notes : List Note} (hn : h'.history = notes ++ h.history) :
    h'.phaseChanges = h.phaseChanges ++ (changesOf (notes.map (·.what))).reverse := by
  rw [phaseChanges, hn, List.map_append, changesOf_append, List.reverse_append]
  rfl

/-- The changes in the history take the session from disconnected to the phase that it is in. -/
theorem phaseChanges_path (config : SessionConfig) (twin : Twin) (as : List Action) :
    Phase.Path .disconnected ((ofSession config twin).run as).phaseChanges
      ((ofSession config twin).run as).session.phase := by
  have h0 : Phase.Path .disconnected (ofSession config twin).phaseChanges (ofSession config twin).session.phase := rfl
  refine (Setup.session config twin).tidy.run_inv (P := fun h => Phase.Path .disconnected h.phaseChanges h.session.phase) h0 (fun h a h' ha hp => ?_) as
  obtain ⟨notes, hn, hpath⟩ := ha.path
  rw [phaseChanges_append hn]
  exact hp.append hpath

/-- A start that overtakes a fault leaves its trace for the rest of the run. -/
theorem unlawful_run {h : Host} (ht : h.Tidy) {as : List Action} {m : Moment} (hm : m ∈ h.moments as)
    (ho : m.Overtakes) :
    ∃ x ∈ (h.run as).phaseChanges, ¬x.1.Leads x.2 := by
  induction as using List.reverseRecOn with
  | nil => cases hm
  | append_singleton as a ih =>
    rw [moments_concat, List.mem_append, List.mem_singleton] at hm
    rw [run_concat]
    rcases hm with hm | rfl
    · obtain ⟨x, hx, hlead⟩ := ih hm
      obtain ⟨notes, hn⟩ := history_acts (apply_acts (ht.run as).claimed a)
      exact ⟨x, by rw [phaseChanges_append hn]; exact List.mem_append_left _ hx, hlead⟩
    · exact ho.unlawful

/-- **The phases of a session are in order, and a fault is final, exactly in the runs in which no start goes on in a
session that is faulted.** A start can go on only where the reply to its request had been delivered to it, or where
nothing was left to register; otherwise every change of phase is one of the handshake or a fault, a faulted session
stays faulted and no start succeeds in it. -/
theorem lawful_iff (config : SessionConfig) (twin : Twin) (as : List Action) :
    let h := ofSession config twin
    Phase.Path .disconnected (h.run as).phaseChanges (h.run as).session.phase ∧
    (((∀ x ∈ (h.run as).phaseChanges, x.1.Leads x.2) ∧
      ∀ m ∈ h.moments as, m.host.session.phase = .faulted → m.after.session.phase = .faulted ∧ ¬m.Starts) ↔
    ∀ m ∈ h.moments as, ¬m.Overtakes) := by
  intro h
  refine ⟨phaseChanges_path config twin as, ⟨fun hl m hm ho => ?_, fun hov => ?_⟩⟩
  · obtain ⟨x, hx, hlead⟩ := unlawful_run (Setup.session config twin).tidy hm ho
    exact hlead (hl.1 x hx)
  · induction as using List.reverseRecOn with
    | nil => exact ⟨by simp [h, run, ofSession, phaseChanges], by simp [moments]⟩
    | append_singleton as a ih =>
      rw [moments_concat] at hov ⊢
      rw [run_concat]
      obtain ⟨hc, hm⟩ := ih fun m hm => hov m (List.mem_append_left _ hm)
      have ha := acts_ofSession config twin as a
      obtain ⟨notes, hn, hlead, hans⟩ := (orderly_run config twin as).lawful ha
        (hov ⟨h.run as, a⟩ (List.mem_append_right _ (List.mem_singleton.mpr rfl)))
      refine ⟨fun x hx => ?_, fun m hmem hp => ?_⟩
      · rw [phaseChanges_append hn, List.mem_append, List.mem_reverse] at hx
        exact hx.elim (hc x) (hlead x)
      · rcases List.mem_append.mp hmem with hmem | hmem
        · exact hm m hmem hp
        · obtain rfl := List.mem_singleton.mp hmem
          obtain ⟨notes', hn', hpath⟩ := ha.path
          obtain rfl : notes = notes' := List.append_cancel_right (hn.symm.trans hn')
          have hp' : (h.run as).session.phase = .faulted := hp
          rw [hp'] at hpath
          refine ⟨hpath.eq_faulted fun x hx => hlead x (List.mem_reverse.mp hx), ?_⟩
          rintro ⟨n, hmem, d, he⟩
          rw [Moment.news_eq (m := ⟨h.run as, a⟩) hn] at hmem
          exact hans hp n hmem d he

/-- The device answers both requests of the handshake, and the session is closed while its start waits for the twin to
publish the one interface of the device. -/
def closedWhilePublishing : List Action :=
  let start := Action.advance (.call 0) false
  let loop := Action.advance .loop false
  let device := fun p : Packet => Action.receive (Frame.encode p.toBytes)
  [.make .start, start, start, loop, loop, loop, start,
    device (.bare .resetResponse), loop, loop, loop, start, start, loop, loop, loop, start,
    device (.ofKind .descriptorResponse [1, 0, 5, 1, 0, 97]), loop, loop, loop, start, start,
    .make .close, .advance (.call 1) false, .pass 100, start, start, start, start]

/-- **A fault is not final when a start overtakes it:** closed while it registers, the session becomes operational. -/
theorem closedWhilePublishing_operational :
    let h := ofSession {} (.scripted [] 100 0)
    (h.run closedWhilePublishing).session.phase = .operational ∧
    ¬((∀ x ∈ (h.run closedWhilePublishing).phaseChanges, x.1.Leads x.2) ∧
      ∀ m ∈ h.moments closedWhilePublishing,
        m.host.session.phase = .faulted → m.after.session.phase = .faulted ∧ ¬m.Starts) := by
  intro h
  have hx : (Phase.faulted, Phase.operational) ∈ (h.run closedWhilePublishing).phaseChanges := by decide +kernel
  refine ⟨by decide +kernel, fun hl => ?_⟩
  cases hl.1 _ hx

end Host
end TwinLink
