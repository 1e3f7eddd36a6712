import TwinLink.Proofs.Session.Closing
import TwinLink.Proofs.Session.InFlight

/-!
# Closing is final for operations

Once a session has been closed, nothing is pending in it and no operation succeeds. What waited for a lock, to be written
or for its reply comes back with the link closed, unless its reply had been matched by then, and what is asked later is
refused before it sends.

* `Point.unsent` : operations that have not called a send; `Host.unsent_forGood`;
* `Host.Unmatched` : operations that wait and have no reply in hand; `Host.cutOff_forGood`;
* `Host.ErrsSoon` : operations that are about to be refused; `Host.refused_forGood`;
* `ClosedForGood` : what a close means for a later state; `Host.closed_forGood`.
-/

namespace TwinLink

variable {h h' : Host} {c : Call} {q p : Point} {m : Move} {a : Action} {keeps : Bool}

/-! ## Operations that have not sent -/

/-- The operation has not called a send yet. -/
def Point.unsent : Point → Bool
  | begun (.operate _) => true
  | begun (.twinOperate _) => true
  | inLine _ => true
  | _ => false

/-- An operation that has called a send never stands before it again. -/
theorem CallMove.unsent_before (hm : CallMove h c q m) (hf : m.fate = .goes p keeps) (hp : p.unsent) : q.unsent := by
  have hno := (hm.plan hf).1
  unfold Point.unsent at hp
  split at hp
  · exact absurd rfl (hno _)
  · exact absurd rfl (hno _)
  · obtain ⟨op, rfl | rfl, -⟩ := hm.plans hf <;> rfl
  · cases hp

/-- Where the table of waiters is closed no operation calls a send. -/
theorem CallMove.unsent_after (hm : CallMove h c q m) (hf : m.fate = .goes p keeps) (hq : q.unsent)
    (hclosed : ∀ plan, q = .inLine plan → h.link.table.closed.isSome) : p.unsent := by
  unfold Point.unsent at hq
  split at hq
  · cases hm with
    | begin hm =>
      cases hm with
      | operate => cases hf; rfl
      | operateRefused => cases hf
  · cases hm with
    | begin hm =>
      cases hm with
      | twinOperate => cases hf; rfl
      | twinRefused | twinDropped => cases hf
  · obtain ⟨-, ⟨-, he⟩ | ⟨reason, -, he⟩⟩ := hm.inLine (hclosed _ rfl) <;> rw [hf] at he <;> cases he
  · cases hq

theorem Point.sends_of_unsent (hq : q.unsent) : q.sends = false := by
  unfold unsent at hq
  split at hq <;> first | rfl | cases hq

/-- An operation that has not called a send is no caller of one. -/
theorem Host.unsent_run (config : SessionConfig) (twin : Twin) (as : List Action) :
    ∀ c ∈ ((ofSession config twin).run as).calls, c.point.unsent →
      ∀ s ∈ ((ofSession config twin).outbox as).called, s.caller ≠ c.id := by
  induction as using List.reverseRecOn with
  | nil => exact List.forall_mem_nil _
  | append_singleton as a ih =>
    intro x hx hux s hs
    have hn := (Setup.session config twin).numbered_run as
    have ha := acts_ofSession config twin as a
    rw [outbox_concat] at hs
    rw [run_concat] at hx
    have hs := Outbox.called_acts ha hn hs
    have hn' := hn.acts ha
    generalize ((ofSession config twin).run as).apply a = h' at ha hx hs hn'
    rcases hs with hold | ⟨c, hc, hid, hsends, -⟩
    · cases ha with
      | loop i hm ht => exact ih x (ht.calls ▸ hx) hux s hold
      | dispatcher i hm ht => exact ih x (ht.calls ▸ hx) hux s hold
      | call i hc hm hl =>
        have hc := call?_mem hc
        rcases hn.mem_callsAfter hc (hl.calls ▸ hx) with ⟨hx, -⟩ | ⟨p, keeps, hf, rfl⟩ | ⟨-, rfl⟩
        · exact ih x hx hux s hold
        · exact ih _ hc (hm.unsent_before hf hux) s hold
        · exact ih x hc hux s hold
      | make r hm ready =>
        rcases List.mem_append.mp hx with hx | hx
        · exact ih x hx hux s hold
        · obtain rfl := List.mem_singleton.mp hx
          obtain ⟨current, waiting, hmail⟩ := (Setup.session config twin).mailed_run as
          exact Nat.ne_of_lt (hmail.callers s hold)
      | abandon hc released hr ready => exact ih x (List.mem_filter.mp hx).1 hux s hold
      | _ => exact ih x hx hux s hold
    · intro he
      obtain rfl := hn'.eq_of_id hc hx (hid.trans he)
      rw [Point.sends_of_unsent hux] at hsends
      cases hsends

section

variable {config : SessionConfig} {twin : Twin} {as bs : List Action}

/-- The call that closes the session moves nobody else. -/
theorem Host.mem_of_closes (hc : (Moment.mk ((ofSession config twin).run as) a).closes)
    (hmem : c ∈ ((ofSession config twin).run as).calls) (hp : c.point ≠ .begun .close) :
    c ∈ ((ofSession config twin).run (as ++ [a])).calls := by
  obtain ⟨x, hmove, hx⟩ := Moment.closes_mover hc
  obtain ⟨hxm, ⟨hw, -⟩ | ⟨m, -, hl⟩⟩ := Moment.mover_acts hmove
  · exact absurd hx ((hearing_of_waits hw).2 _)
  · rw [run_concat]
    show c ∈ (Moment.mk ((ofSession config twin).run as) a).after.calls
    rw [hl.calls]
    refine Move.mem_callsAfter_of_ne hmem fun he => hp ?_
    rw [((Setup.session config twin).numbered_run as).eq_of_id hmem hxm he]
    exact hx

/-- **After the close no operation calls a send** that has not called one before. -/
theorem Host.unsent_forGood (hc : (Moment.mk ((ofSession config twin).run as) a).closes) (hb : as ++ [a] <+: bs)
    (hmem : c ∈ ((ofSession config twin).run bs).calls) (hq : c.point.unsent) {cs : List Action} (hcs : bs <+: cs) :
    (c.id < ((ofSession config twin).run cs).made ∧ ∀ x ∈ ((ofSession config twin).run cs).calls, x.id = c.id →
      x.point.unsent) ∧ ∀ s ∈ ((ofSession config twin).outbox cs).called, s.caller ≠ c.id := by
  obtain ⟨ds, rfl⟩ := hcs
  induction ds using List.reverseRecOn with
  | nil =>
    rw [List.append_nil]
    exact ⟨((Setup.session config twin).numbered_run bs).point hmem (P := (·.unsent)) hq,
      unsent_run config twin bs c hmem hq⟩
  | append_singleton ds b ih =>
    obtain ⟨hpoint, hcalled⟩ := ih
    have hn := (Setup.session config twin).numbered_run (bs ++ ds)
    have ha := acts_ofSession config twin (bs ++ ds) b
    have hclosing := closing_run hc (hb.trans (List.prefix_append bs ds))
    have hnext := ha.point hn (P := (·.unsent)) (fun x hx m p keeps hm hf hq => hm.unsent_after hf hq fun plan hp =>
      hclosing.closed (launched_run config twin _) (present_run config twin _) hx (by rw [hp]; rfl)) hpoint
    rw [← List.append_assoc, run_concat, outbox_concat]
    refine ⟨hnext, fun s hs => ?_⟩
    rcases Outbox.called_acts ha hn hs with hold | ⟨x, hx, hid, hsends, -⟩
    · exact hcalled s hold
    · intro he
      rw [Point.sends_of_unsent (hnext.2 x hx (hid.trans he))] at hsends
      cases hsends

end

/-! ## Operations that wait -/

/-- The call is an operation that waits for its lock, for its request to be written or for the reply. -/
def Point.waits : Point → Bool
  | inLine _ => true
  | entering _ _ _ purpose => purpose.plan?.isSome
  | writing _ _ purpose => purpose.plan?.isSome
  | awaiting _ _ _ purpose => purpose.plan?.isSome
  | _ => false

/-- The operation waits, and no reply was matched to it. -/
def Host.Unmatched (h : Host) (c : Call) : Prop :=
  c.point.waits ∧ ∀ t, c.point.ticket? = some t → ∀ p, h.link.delivery? t.id ≠ some (.ok p)

/-- Where an operation waits, with the registration that it has beyond the line. -/
inductive Point.Pends : Option Ticket → Point → Prop
  | inLine (plan : Plan) : Pends none (inLine plan)
  | entering (frame : Bytes) (t : Ticket) (limit : Option Nat) (plan : Plan) :
      Pends (some t) (entering frame (some t) limit (.operation plan))
  | writing (t : Ticket) (limit : Option Nat) (plan : Plan) : Pends (some t) (writing (some t) limit (.operation plan))
  | awaiting (t : Ticket) (limit : Option Nat) (alarm : Option Alarm) (plan : Plan) :
      Pends (some t) (awaiting t limit alarm (.operation plan))

namespace Point.Pends

variable {ticket? : Option Ticket}

theorem ticket_eq (hp : q.Pends ticket?) : q.ticket? = ticket? := by
  cases hp <;> rfl

theorem plan (hp : q.Pends ticket?) : ∃ plan, q.plan? = some plan := by
  cases hp <;> exact ⟨_, rfl⟩

end Point.Pends

theorem Purpose.eq_of_plan {purpose : Purpose} (hp : purpose.plan?.isSome) : ∃ plan, purpose = .operation plan := by
  cases purpose with
  | operation plan => exact ⟨plan, rfl⟩
  | direct | handshake => cases hp

/-- An operation that waits beyond the line has a registration. -/
theorem Host.Registered.pends {opened : List Waiter} (hr : h.Registered opened) (hc : c ∈ h.calls)
    (hw : c.point.waits) : c.point.Pends c.point.ticket? := by
  have hr := hr c hc
  generalize c.point = q at hw hr ⊢
  unfold Point.waits at hw
  split at hw
  · exact .inLine _
  · obtain ⟨plan, rfl⟩ := Purpose.eq_of_plan hw
    obtain ⟨w, -, ht, -⟩ := hr _ rfl nofun
    obtain rfl : _ = some w.ticket := ht
    exact .entering _ _ _ plan
  · obtain ⟨plan, rfl⟩ := Purpose.eq_of_plan hw
    obtain ⟨w, -, ht, -⟩ := hr _ rfl nofun
    obtain rfl : _ = some w.ticket := ht
    exact .writing _ _ plan
  · obtain ⟨plan, rfl⟩ := Purpose.eq_of_plan hw
    exact .awaiting _ _ _ plan
  · cases hw

/-- **An operation that waits while the link is closed** goes on waiting, or it fails with that. -/
theorem CallMove.cutOff {ticket? : Option Ticket} (hm : CallMove h c c.point m) (hc : c ∈ h.calls) (hcand : h.Candid)
    (hcl : h.link.table.closed.isSome) (hp : c.point.Pends ticket?)
    (hd : ∀ t, ticket? = some t → ∃ e, h.link.delivery? t.id = some (.error e)) :
    (∀ p keeps, m.fate = .goes p keeps → p.Pends ticket?) ∧
      ∀ answer, m.fate = .ends answer → ∃ e, answer = .error (.session (.link e)) ∧ h.Broken e := by
  have hfails : ∀ {l : Link} {notes : List Happening} {plan : Plan} {e : LinkError},
      Fails h l notes (.operation plan) e m → h.Broken e → (∀ p keeps, m.fate = .goes p keeps → p.Pends ticket?) ∧
        ∀ answer, m.fate = .ends answer → ∃ e, answer = .error (.session (.link e)) ∧ h.Broken e := fun hf hb => by
    cases hf
    exact ⟨fun _ _ hf => (by cases hf), fun answer hf => by cases hf; exact ⟨_, rfl, hb⟩⟩
  have hdeliv := hcand.deliveries c hc
  generalize c.point = q at hm hp hdeliv
  cases hp with
  | inLine plan =>
    obtain ⟨-, ⟨-, hf⟩ | ⟨reason, hr, hf⟩⟩ := hm.inLine hcl
    · rw [hf]
      exact ⟨fun _ _ he => (by cases he), nofun⟩
    · rw [hf]
      exact ⟨fun _ _ he => (by cases he), fun answer he => by cases he; exact ⟨_, rfl, hcl, .inl ⟨reason, rfl⟩⟩⟩
  | entering frame t limit plan =>
    cases hm with
    | entered => exact ⟨fun p keeps hf => by cases hf; exact .writing t limit plan, nofun⟩
    | queued => exact ⟨fun _ _ hf => (by cases hf), nofun⟩
    | shutOut _ _ _ _ hclosed hf => exact hfails hf (hcand.refused hclosed)
  | writing t limit plan =>
    cases hm with
    | unwritten _ _ _ e hr hf => exact hfails hf (hcand.receipts _ e hr)
    | written => exact ⟨fun p keeps hf => by cases hf; exact .awaiting t limit _ plan, nofun⟩
  | awaiting t limit alarm plan =>
    obtain ⟨e, he⟩ := hd t rfl
    cases hm with
    | failed _ _ _ _ e' hd' hf => exact hfails hf (hdeliv t rfl e' hd')
    | timedOut _ _ _ _ hn => rw [he] at hn; cases hn
    | unreadable _ _ _ _ p hd' => rw [he] at hd'; cases hd'
    | answered _ _ _ _ p hd' => rw [he] at hd'; cases hd'
    | taken _ _ _ _ p hd' => rw [he] at hd'; cases hd'

/-- A call takes no frame. -/
theorem Moment.sorted_of_mover {mo : Moment} (hc : mo.mover = some c) : mo.sorted = none := by
  unfold mover at hc
  split at hc
  · rename_i ha
    unfold sorted
    rw [ha]
  · cases hc

theorem Moment.answers_of_ends {mo : Moment} (hl : mo.host.Leaves c m mo.after) {answer : Answer}
    (hf : m.fate = .ends answer) : mo.Answers c.id answer := by
  refine ⟨⟨.call c.id, mo.host.now, .answered answer⟩, ?_, rfl, rfl⟩
  rw [news_eq hl.history, Move.happenings, hf]
  exact List.mem_cons_self

section

variable {config : SessionConfig} {twin : Twin} {as bs : List Action}

/-- After the close an operation that was begun by then finds the table of waiters closed. -/
theorem Host.tableClosed_of_closes (hc : (Moment.mk ((ofSession config twin).run as) a).closes) (hb : as ++ [a] <+: bs)
    (hmem : c ∈ ((ofSession config twin).run as).calls) {plan : Plan} (hq : c.point.plan? = some plan) :
    ((ofSession config twin).run bs).link.table.closed.isSome := by
  refine (closing_run hc hb).ended.resolve_left (present_run config twin bs (.inl ?_))
  obtain ⟨cs, rfl⟩ := (List.prefix_append as [a]).trans hb
  rw [run_append]
  exact wasOperational_mono ((Setup.session config twin).tidy_run as) ((launched_run config twin as).planned c hmem plan hq) cs

/-- The registration of an operation that is not matched when the session is closed is told so. -/
theorem Host.heldFor_of_closes (hc : (Moment.mk ((ofSession config twin).run as) a).closes)
    (hmem : c ∈ ((ofSession config twin).run as).calls) (hu : ((ofSession config twin).run as).Unmatched c) {w : Waiter}
    (hw : w ∈ ((ofSession config twin).moments as).flatMap Moment.opened) (ht : c.point.ticket? = some w.ticket) :
    ∃ e, ((ofSession config twin).run (as ++ [a])).link.heldFor w.id = [.error e] := by
  have hk := (Setup.session config twin).kept_run as
  have hk' := (Setup.session config twin).kept_run (as ++ [a])
  obtain ⟨plan, hq⟩ := ((registered_run config twin as).pends hmem hu.1).plan
  have hw' : w ∈ ((ofSession config twin).moments (as ++ [a])).flatMap Moment.opened := by
    rw [moments_append, List.flatMap_append]
    exact List.mem_append_left _ hw
  cases hk'.lots w hw' with
  | waiting he =>
    rw [hk'.closed (tableClosed_of_closes hc List.prefix_rfl hmem hq)] at he
    cases he
  | answered p _ _ _ htaken =>
    -- the call that closes the session takes no packet, so it was taken before
    obtain ⟨_, hmove, -⟩ := Moment.closes_mover hc
    have hserved := Moment.served_none (Moment.sorted_of_mover hmove)
    have htaken : (w, p) ∈ ((ofSession config twin).moments (as ++ [a])).filterMap Moment.served := htaken
    rw [seen_concat, hserved, Option.toList_none, List.append_nil] at htaken
    rcases hk.delivery? hw (mem_live hmem ht) with ⟨-, -, hno⟩ | ⟨p', hd, -⟩ | ⟨_, -, -, -, hno⟩
    · exact absurd htaken (hno p)
    · exact absurd hd (hu.2 _ ht p')
    · exact absurd htaken (hno p)
  | ended reason _ _ hr => exact ⟨_, hr⟩
  | gone _ hn =>
    have hstays := mem_of_closes hc hmem (by rintro hp; rw [hp] at hq; cases hq)
    exact absurd (mem_live hstays ht) hn

/-- The registration of an operation that was not matched when the session was closed brings an error. -/
theorem Host.delivery_of_closes (hc : (Moment.mk ((ofSession config twin).run as) a).closes) (hb : as ++ [a] <+: bs)
    (hmem : c ∈ ((ofSession config twin).run as).calls) (hu : ((ofSession config twin).run as).Unmatched c) {t : Ticket}
    (ht : c.point.ticket? = some t) {x : Call} (hx : x ∈ ((ofSession config twin).run bs).calls)
    (hxt : x.point.ticket? = some t) : ∃ e, ((ofSession config twin).run bs).link.delivery? t.id = some (.error e) := by
  obtain ⟨w, hw, rfl⟩ := ((Setup.session config twin).kept_run as).holders t (mem_live hmem ht)
  obtain ⟨e, he⟩ := heldFor_of_closes hc hmem hu hw ht
  have hw' : w ∈ ((ofSession config twin).moments (as ++ [a])).flatMap Moment.opened := by
    rw [moments_append, List.flatMap_append]
    exact List.mem_append_left _ hw
  obtain ⟨cs, rfl⟩ := hb
  have hlater := (Setup.session config twin).results_mono (as ++ [a]) cs hw' he (mem_live hx hxt)
  refine ⟨e, ?_⟩
  rw [Link.delivery?_eq]
  exact congrArg List.head? hlater

/-- **An operation that waits unmatched as the session is closed** waits from then on, and fails with that if it ends. -/
theorem Host.cutOff_forGood (hc : (Moment.mk ((ofSession config twin).run as) a).closes) (hb : as ++ [a] <+: bs)
    (hmem : c ∈ ((ofSession config twin).run as).calls) (hu : ((ofSession config twin).run as).Unmatched c) :
    c.id < ((ofSession config twin).run bs).made ∧
      ∀ x ∈ ((ofSession config twin).run bs).calls, x.id = c.id → x.point.Pends c.point.ticket? := by
  obtain ⟨plan, hq⟩ := ((registered_run config twin as).pends hmem hu.1).plan
  obtain ⟨cs, rfl⟩ := hb
  induction cs using List.reverseRecOn with
  | nil =>
    rw [List.append_nil]
    have hstays := mem_of_closes hc hmem (by rintro hp; rw [hp] at hq; cases hq)
    exact ((Setup.session config twin).numbered_run _).point hstays (P := (·.Pends c.point.ticket?))
      ((registered_run config twin as).pends hmem hu.1)
  | append_singleton cs b ih =>
    have hb : as ++ [a] <+: as ++ [a] ++ cs := List.prefix_append _ cs
    rw [← List.append_assoc, run_concat]
    refine (acts_ofSession config twin _ b).point ((Setup.session config twin).numbered_run _) (P := (·.Pends c.point.ticket?))
      (fun x hx m p keeps hm hf hp => ?_) ih
    exact (hm.cutOff hx ((Setup.session config twin).candid_run _) (tableClosed_of_closes hc hb hmem hq) hp
      fun t ht => delivery_of_closes hc hb hmem hu ht hx (hp.ticket_eq.trans ht)).1 p keeps hf

end

/-! ## Operations that begin -/

/-- At its next turn the call `id` comes back with an error. -/
def Host.ErrsNext (h : Host) (id : Nat) : Prop :=
  ∀ i, ∃ e, (Moment.mk h (.advance (.call id) i)).Answers id (.error (.session e))

/-- At its next turn the call `id` comes back with an error, or it lines up, to come back with an error at the turn after
that, whatever happens in between. -/
def Host.ErrsSoon (h : Host) (id : Nat) : Prop :=
  ∀ i, let mo := Moment.mk h (.advance (.call id) i)
    (∃ e, mo.Answers id (.error (.session e))) ∨
      (∃ c ∈ mo.after.calls, c.id = id) ∧
        ∀ cs, (∃ c ∈ (mo.after.run cs).calls, c.id = id) → (mo.after.run cs).ErrsNext id

/-- An operation is refused as it begins, or lines up in an operational session. -/
theorem CallMove.operates {op : Operation} (hm : CallMove h c q m)
    (hq : q = .begun (.operate op) ∨ q = .begun (.twinOperate op)) :
    (∃ e, m.fate = .ends (.error (.session e))) ∨
      h.session.phase = .operational ∧ ∃ plan keeps, m.fate = .goes (.inLine plan) keeps := by
  rcases hq with rfl | rfl
  · cases hm with
    | begin hm =>
      cases hm with
      | operate _ plan hp => exact .inr ⟨(Host.planOperation_eq_ok hp).1, plan, false, rfl⟩
      | operateRefused _ e => exact .inl ⟨e, rfl⟩
  · cases hm with
    | begin hm =>
      cases hm with
      | twinOperate _ plan hp => exact .inr ⟨(Host.planOperation_eq_ok hp).1, plan, true, rfl⟩
      | twinRefused _ e => exact .inl ⟨e, rfl⟩
      | twinDropped => exact .inl ⟨_, rfl⟩

/-- Where nobody holds a lock, an operation in line need not wait. -/
theorem Host.LocksFree.lockStep (hf : h.LocksFree) (plan : Plan) : h.lockStep c plan ≠ none := by
  unfold Host.lockStep
  rw [hf plan.kind]
  simp only [Lock.acquire, if_true]
  split <;> exact Option.some_ne_none _

/-- Where nobody holds a lock and the link is closed, an operation in line comes back at its next turn. -/
theorem Host.LocksFree.errsNext (hf : h.LocksFree) (hn : h.Numbered) (hcl : h.link.table.closed.isSome)
    (hc : c ∈ h.calls) {plan : Plan} (hp : c.point = .inLine plan) : h.ErrsNext c.id := by
  intro i
  have hmove : (Moment.mk h (.advance (.call c.id) i)).mover = some c := hn.call?_of_mem hc
  obtain ⟨-, ⟨hw, -⟩ | ⟨m, hm, hl⟩⟩ := Moment.mover_acts hmove
  · unfold pointStep at hw
    rw [hp] at hw
    exact absurd hw (hf.lockStep plan)
  · rw [hp] at hm
    obtain ⟨-, ⟨hno, -⟩ | ⟨reason, -, hfate⟩⟩ := hm.inLine hcl
    · have hno : ((h.session.lock plan.kind).acquire c.id).2 = false := hno
      rw [hf plan.kind] at hno
      cases hno
    · exact ⟨_, Moment.answers_of_ends hl hfate⟩

section

variable {config : SessionConfig} {twin : Twin} {as bs : List Action}

/-- After the close an operation that lines up where nobody holds a lock stays there. -/
theorem Host.lined_forGood (hc : (Moment.mk ((ofSession config twin).run as) a).closes) (hb : as ++ [a] <+: bs)
    (hu : ((ofSession config twin).run bs).Unclaimed) (hmem : c ∈ ((ofSession config twin).run bs).calls) {plan : Plan}
    (hp : c.point = .inLine plan) (cs : List Action) :
    ((ofSession config twin).run (bs ++ cs)).Unclaimed ∧ c.id < ((ofSession config twin).run (bs ++ cs)).made ∧
      ∀ x ∈ ((ofSession config twin).run (bs ++ cs)).calls, x.id = c.id → ∃ plan, x.point = .inLine plan := by
  induction cs using List.reverseRecOn with
  | nil =>
    rw [List.append_nil]
    exact ⟨hu, ((Setup.session config twin).numbered_run bs).point hmem (P := fun q => ∃ plan, q = .inLine plan) ⟨plan, hp⟩⟩
  | append_singleton cs b ih =>
    have hn := (Setup.session config twin).numbered_run (bs ++ cs)
    have hclosed : ∀ x ∈ ((ofSession config twin).run (bs ++ cs)).calls, ∀ plan, x.point.plan? = some plan →
        ((ofSession config twin).run (bs ++ cs)).link.table.closed.isSome := fun x hx plan hq =>
      (closing_run hc (hb.trans (List.prefix_append bs cs))).closed (launched_run config twin _)
        (present_run config twin _) hx hq
    have ha := acts_ofSession config twin (bs ++ cs) b
    rw [← List.append_assoc, run_concat]
    refine ⟨ih.1.acts hn hclosed ha, ha.point hn (P := fun q => ∃ plan, q = .inLine plan) ?_ ih.2⟩
    rintro x hx m p keeps hm hf ⟨plan, hq⟩
    rw [hq] at hm
    obtain ⟨-, ⟨-, he⟩ | ⟨reason, -, he⟩⟩ := hm.inLine (hclosed x hx plan (by rw [hq]; rfl)) <;> rw [hf] at he <;> cases he

/-- **An operation that begins after the close** is refused. -/
theorem Host.refused_forGood (hc : (Moment.mk ((ofSession config twin).run as) a).closes) (hb : as ++ [a] <+: bs)
    (hmem : c ∈ ((ofSession config twin).run bs).calls) {op : Operation}
    (hp : c.point = .begun (.operate op) ∨ c.point = .begun (.twinOperate op)) :
    ((ofSession config twin).run bs).ErrsSoon c.id := by
  intro i mo
  have hn := (Setup.session config twin).numbered_run bs
  have hmove : mo.mover = some c := hn.call?_of_mem hmem
  obtain ⟨-, ⟨hw, -⟩ | ⟨m, hm, hl⟩⟩ := Moment.mover_acts hmove
  · exact (hp.elim ((hearing_of_waits hw).2 _) ((hearing_of_waits hw).2 _)).elim
  rcases hm.operates hp with ⟨e, hf⟩ | ⟨hop, plan, keeps, hf⟩
  · exact .inl ⟨e, Moment.answers_of_ends hl hf⟩
  -- a start that was under way has made the session operational, so the locks are free
  have hclosing := closing_run hc hb
  have hu : ((ofSession config twin).run bs).Unclaimed := hclosing.idle.resolve_left fun ⟨_, hph⟩ => by
    have hop : ((ofSession config twin).run bs).session.phase = .operational := hop
    rw [hph] at hop
    cases hop
  have hafter : mo.after = (ofSession config twin).run (bs ++ [mo.action]) := (run_concat _ _ _).symm
  have hu' : mo.after.Unclaimed := hu.acts hn
    (fun x hx plan hq => hclosing.closed (launched_run config twin _) (present_run config twin _) hx hq)
    (acts_ofSession config twin bs mo.action)
  have hx := Move.mem_callsAfter_of_goes hmem hf
  have hx : { c with point := .inLine plan, holds := keeps || c.holds } ∈ mo.after.calls := hl.calls ▸ hx
  refine .inr ⟨⟨_, hx, rfl⟩, fun cs => ?_⟩
  rw [hafter] at hu' hx ⊢
  rw [← run_append]
  rintro ⟨y, hy, hid⟩
  have hb' : as ++ [a] <+: bs ++ [mo.action] := hb.trans (List.prefix_append _ _)
  obtain ⟨hfree, -, hline⟩ := lined_forGood hc hb' hu' hx rfl cs
  obtain ⟨plan, hq⟩ := hline y hy hid
  have hcl := (closing_run hc (hb'.trans (List.prefix_append _ cs))).closed (launched_run config twin _)
    (present_run config twin _) hy (by rw [hq]; rfl)
  exact hid ▸ hfree.free.errsNext ((Setup.session config twin).numbered_run _) hcl hy hq

end

/-! ## What closing means -/

/-- What it means for the state after `bs` that the session was closed at the end of `as`. -/
structure ClosedForGood (start : Host) (as bs : List Action) : Prop where
  /-- Nothing is pending on the link, if there is one. -/
  pending : (start.run bs).link.loop ≠ .absent → (start.run bs).link.table.entries = []
  /-- An operation that begins now comes back with an error. -/
  refused : ∀ c ∈ (start.run bs).calls, ∀ op, c.point = .begun (.operate op) ∨ c.point = .begun (.twinOperate op) →
    (start.run bs).ErrsSoon c.id
  /-- An operation that had not called a send when the session was closed, or at any time since, has called none. -/
  unsent : ∀ ds, as <+: ds → ds <+: bs → ∀ c ∈ (start.run ds).calls, c.point.unsent →
    ∀ s ∈ (start.outbox bs).called, s.caller ≠ c.id
  /-- An operation that waited unmatched when the session was closed can only come back with the link closed, or with
  what went wrong as its frame was written to a device that takes no more bytes. -/
  cutOff : ∀ c ∈ (start.run as).calls, (start.run as).Unmatched c →
    ∀ b answer, (Moment.mk (start.run bs) b).Answers c.id answer → ∃ e, answer = .error (.session (.link e)) ∧
      ((∃ reason, e = .closed reason) ∨ (start.run bs).wire.writeFault.isSome ∧ ∃ text, e = .io text)

namespace Host

/-- The session is closed in a state in which two operations wait for their replies and one for its lock. -/
def closedWhileAsked : List Action := bothAsked ++ [.make .close]

end Host
end TwinLink
