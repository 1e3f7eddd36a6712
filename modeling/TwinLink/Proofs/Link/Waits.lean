import TwinLink.Proofs.Link.Routing
import TwinLink.Proofs.Link.Tickets

/-!
# Every wait resolves once

A registration lives as long as its ticket is held. Its entry leaves the table when its packet is taken, when the table
ends, or when the ticket is given up, and whoever waits gets what came first.

* `Host.GivesUp` : who can give up a ticket;
* `Moment.opened`, `Moment.served` : the registrations opened, and the packet handed out, at a moment of a run;
* `Host.TakesTurn`, `Acts.turn` : every action gives up one ticket at most and is one turn;
* `Moment.waiting`, `Moment.returned` : who looks whether its wait is over, and what it gets;
* `Setup.kept_run` : entries, deliveries and tickets account for each other in every run;
* `Moment.Settles` : what a moment does to registrations;
* `Setup.waits_resolve` : all of this in every run, and what the end of the link does.
-/

namespace TwinLink

theorem Fails.ticketAfter {h : Host} {c : Call} {l : Link} {notes : List Happening} {purpose : Purpose} {e : LinkError}
    {m : Move} (hf : Fails h l notes purpose e m) : m.ticketAfter c = none := by
  cases hf <;> rfl

/-- A call that acts where it awaits its packet gives up its ticket. -/
theorem CallMove.waitOver {h : Host} {c : Call} {t : Ticket} {limit : Option Nat} {deadline : Option Alarm}
    {purpose : Purpose} {m : Move} (hm : CallMove h c (.awaiting t limit deadline purpose) m)
    (hid : t.id < h.link.table.nextId) : m.ticketAfter c ≠ some t := by
  cases hm with
  | failed ticket limit alarm purpose e hd hf => rw [hf.ticketAfter]; exact nofun
  | timedOut ticket limit alarm purpose hd ha hf => rw [hf.ticketAfter]; exact nofun
  | acknowledged ticket limit alarm retries p hd ha =>
    cases ha with
    | opened ho =>
      intro he
      have he : h.link.table.nextId = t.id := congrArg Ticket.id (Option.some.inj he)
      omega
    | closed => exact nofun
  | received | unreadable | answered | taken | misdescribed | described => exact nofun

/-! ## Tickets held -/

namespace Host

variable {h h' : Host}

/-- Who can give up a ticket: the application, or the call that holds it, by ending or by going on. -/
inductive GivesUp (h : Host) : Action → Ticket → Prop
  | withdraw (t : Ticket) (ht : t ∈ h.tickets) : GivesUp h (.withdraw t) t
  | abandon {id : Nat} {c : Call} {t : Ticket} (hc : h.call? id = some c) (ht : c.point.ticket? = some t) :
      GivesUp h (.abandon id) t
  | call {id : Nat} (inputFirst : Bool) {c : Call} {t : Ticket} (hc : h.call? id = some c)
      (ht : c.point.ticket? = some t) : GivesUp h (.advance (.call id) inputFirst) t

end Host

/-! ## What an action makes of tickets and registrations -/

namespace Moment

/-- The registrations opened at this moment. -/
def opened (m : Moment) : List Waiter :=
  m.after.link.table.entries.filter fun w => m.host.link.table.nextId ≤ w.id

/-- The registration that leaves the table at this moment for the packet of a frame. -/
def served (m : Moment) : Option (Waiter × Packet) :=
  m.sorted.bind fun frame => match Packet.ofFrame frame with
    | .ok p => (m.host.link.table.takeMatch? p).map fun x => (x.1, p)
    | .error _ => none

theorem served_none {m : Moment} (hs : m.sorted = none) : m.served = none := by
  unfold served
  rw [hs, Option.bind_none]

end Moment

theorem heldWithout_perm {held others : List Ticket} {own : Option Ticket} (hp : held.Perm (own.toList ++ others)) :
    (heldWithout held own).Perm others := by
  cases own with
  | none => exact hp
  | some t =>
    have := hp.erase t
    rwa [Option.toList_some, List.singleton_append, List.erase_cons_head] at this

/-- Somebody may give up a ticket, and apart from that the action is one turn. -/
def Host.TakesTurn (h : Host) (a : Action) (h' : Host) : Prop :=
  ∃ given opened held, (∀ t ∈ given, h.GivesUp a t ∧ t ∈ h.live) ∧
    TicketTurn (heldWithout h.live given) (h.link.giveUp given) opened (Moment.mk h a).served held h'.link ∧
    held.Perm h'.live

section

variable {h h' : Host} {a : Action}

/-- Nothing is served, and tickets and registrations stay. -/
theorem Host.TakesTurn.quiet (hm : (Moment.mk h a).served = none) (he : h'.link.desk = h.link.desk)
    (hl : h'.live.Perm h.live) : h.TakesTurn a h' := by
  refine ⟨none, [], h.live, nofun, ?_, hl.symm⟩
  rw [hm]
  exact .stays he

/-- A step of the loop is a turn: the packet of a frame is matched as the table says. -/
theorem LoopMove.takesTurn {i : Bool} {t : LoopTurn} (hm : LoopMove h h.link.loop t) (ht : h.LoopTurns t h')
    (ho : h.link.table.Ordered) : h.TakesTurn (.advance .loop i) h' := by
  have hlive : h'.live = h.live := by
    unfold Host.live
    rw [ht.tickets, ht.calls]
  have hlink := ht.link
  have hsorted : (Moment.mk h (.advance .loop i)).sorted = h.link.loop.next := rfl
  generalize hq : h.link.loop = q at hm hsorted
  have hshut : (Moment.mk h (.advance .loop i)).served = none → ∀ reason,
      t.link.desk = (h.link.shut reason).desk → h.TakesTurn (.advance .loop i) h' := fun hm reason he => by
    refine ⟨none, [], h.live, nofun, ?_, .of_eq hlive.symm⟩
    rw [hm]
    exact .shuts reason (by rw [hlink, he]; rfl)
  have hframe : ∀ {frame p}, q.next = some frame → Packet.ofFrame frame = .ok p →
      (Moment.mk h (.advance .loop i)).served = (h.link.table.takeMatch? p).map fun x => (x.1, p) :=
    fun hf hp => by
      unfold Moment.served
      rw [hsorted, hf, Option.bind_some, hp]
  cases hm with
  | readFailed | hungUp | told | deserted | misframed | writeFailed =>
    exact hshut (Moment.served_none hsorted) _ rfl
  | undecodable frame rest fault e hp =>
    refine .quiet ?_ (by rw [hlink]; rfl) (.of_eq hlive)
    unfold Moment.served
    rw [hsorted, LoopPoint.next, Option.bind_some, hp]
  | matched frame rest fault p hp hm =>
    obtain ⟨hw, hacc, -, rfl⟩ := ho.takeMatch hm
    refine ⟨none, [], h.live, nofun, ?_, .of_eq hlive.symm⟩
    rw [hframe rfl hp, hm]
    exact .answers hw hacc (by rw [hlink]; rfl)
  | passed frame rest fault p hp hm hf | dropped frame rest fault p hp hm hf =>
    exact .quiet (by rw [hframe rfl hp, hm]; rfl) (by rw [hlink]; rfl) (.of_eq hlive)
  | _ => exact .quiet (Moment.served_none hsorted) (by rw [hlink]; rfl) (.of_eq hlive)

/-- A step of a call is a turn: the call may give up its ticket, and get another. -/
theorem CallMove.takesTurn {id : Nat} {i : Bool} {c : Call} {m : Move} (hm : CallMove h c c.point m)
    (hc : h.call? id = some c) (hl : h.Leaves c m h') (hn : h.Numbered) :
    h.TakesTurn (.advance (.call id) i) h' := by
  obtain ⟨others, hbefore, hafter, -⟩ := Host.live_split hn (Host.call?_mem hc)
  have hafter : h'.live.Perm ((m.ticketAfter c).toList ++ others) := by
    unfold Host.live
    rw [hl.tickets, hl.calls]
    exact hafter m
  have hswap := hm.swap rfl
  rw [← hl.link] at hswap
  have hmem : ∀ t ∈ c.point.ticket?, h.GivesUp (.advance (.call id) i) t ∧ t ∈ h.live := fun t ht =>
    ⟨.call i hc ht, hbefore.mem_iff.mpr (by simp [show c.point.ticket? = some t from ht])⟩
  have hheld := heldWithout_perm hbefore
  obtain ⟨hnext, hclosed⟩ := h.link.table_giveUp c.point.ticket?
  generalize m.ticketAfter c = own' at hswap hafter
  generalize c.point.ticket? = own at hswap hbefore hmem hheld hnext hclosed
  cases hswap with
  | keeps he => exact .quiet rfl he (hafter.trans hbefore.symm)
  | drops he => exact ⟨own, [], _, hmem, .stays he, hheld.trans hafter.symm⟩
  | enrolls type matcher ho he =>
    refine ⟨own, _, _, hmem, .enrolls type matcher (hclosed.trans ho) he, ?_⟩
    rw [hnext]
    exact (List.perm_append_singleton _ _).trans ((hheld.cons _).trans hafter.symm)
  | shuts reason he => exact ⟨own, [], _, hmem, .shuts reason he, hheld.trans hafter.symm⟩

/-- **Every action is a turn.** -/
theorem Acts.turn (ha : Acts h a h') (hn : h.Numbered) (ho : h.link.table.Ordered) : h.TakesTurn a h' := by
  cases ha with
  | idle a hr => exact .quiet (Moment.served_none (Moment.refused (m := ⟨h, a⟩) hr).1) rfl (.refl _)
  | loop i hm ht => exact hm.takesTurn ht ho
  | dispatcher inputFirst hm ht =>
    obtain ⟨events, he⟩ := hm.link
    refine .quiet rfl (by rw [ht.link, he]; rfl) ?_
    unfold Host.live
    rw [ht.tickets, ht.calls]
  | call i hc hm hl => exact hm.takesTurn hc hl hn
  | make r hm ready => exact .quiet rfl rfl (Host.live_make hm)
  | abandon hc released hr ready =>
    obtain ⟨others, hbefore, -, hafter⟩ := Host.live_split hn (Host.call?_mem hc)
    refine ⟨_, [], _, fun t ht => ⟨.abandon hc ht, hbefore.mem_iff.mpr (by
      simp [show (Call.point _).ticket? = some t from ht])⟩, .stays (Link.desk_vacate _ _),
      (heldWithout_perm hbefore).trans hafter.symm⟩
  | register type matcher hc =>
    refine ⟨none, _, _, nofun, .enrolls type matcher hc rfl, ?_⟩
    show ((h.tickets ++ _) ++ [_]).Perm ((h.tickets ++ [_]) ++ _)
    rw [List.append_assoc, List.append_assoc]
    exact (List.perm_append_comm).append_left _
  | withdraw t ht =>
    refine ⟨some t, [], _, fun u hu => ?_, .stays rfl, ?_⟩
    · cases hu
      exact ⟨.withdraw t ht, List.mem_append_left _ ht⟩
    · show ((h.tickets ++ _).erase t).Perm (h.tickets.erase t ++ _)
      rw [List.erase_append_left _ ht]
  | _ => exact .quiet rfl rfl (.refl _)

end

namespace Host.TakesTurn

variable {opened : List Waiter} {taken : List (Waiter × Packet)} {h h' : Host} {a : Action} {t : Ticket} {w : Waiter}

theorem nextId_giveUp (h : Host) (t : Option Ticket) : (h.link.giveUp t).table.nextId = h.link.table.nextId :=
  (h.link.table_giveUp t).1

/-- **The accounts are kept by every action.** -/
theorem kept (ht : h.TakesTurn a h') (hk : Kept opened taken h.live h.link) :
    Kept (opened ++ h'.link.table.entries.filter fun w => h.link.table.nextId ≤ w.id)
      (taken ++ (Moment.mk h a).served.toList) h'.live h'.link := by
  obtain ⟨given, o, held, hg, ht, hp⟩ := ht
  have hk := hk.giveUp fun t h => (hg t h).2
  have hnews := hk.news ht
  rw [nextId_giveUp] at hnews
  rw [hnews]
  exact (hk.turn ht).congr rfl hp

theorem closed (ht : h.TakesTurn a h') {reason : String} (hc : h.link.table.closed = some reason) :
    h'.link.table.closed = some reason := by
  obtain ⟨given, o, held, -, ht, -⟩ := ht
  exact ht.closed ((h.link.table_giveUp given).2.trans hc)

theorem nextId (ht : h.TakesTurn a h') : h.link.table.nextId ≤ h'.link.table.nextId := by
  obtain ⟨given, o, held, -, ht, -⟩ := ht
  exact nextId_giveUp h given ▸ ht.nextId

/-- The table does not end while a packet is taken from it. -/
theorem closed_of_served (ht : h.TakesTurn a h') {x : Waiter × Packet} (hs : (Moment.mk h a).served = some x) :
    h'.link.table.closed = h.link.table.closed := by
  obtain ⟨given, o, held, -, ht, -⟩ := ht
  rw [hs] at ht
  exact ht.closed_of_answer.trans (h.link.table_giveUp given).2

/-- A ticket that is held after the action and is not new was not given up. -/
theorem old (ht : h.TakesTurn a h') (hh : t ∈ h'.live) (hid : t.id < h.link.table.nextId) : t ∈ h.live := by
  obtain ⟨given, o, held, -, ht, hp⟩ := ht
  have := ht.old (hp.mem_iff.mpr hh) (by rwa [nextId_giveUp])
  cases given with
  | none => exact this
  | some u => exact List.mem_of_mem_erase this

/-- One ticket at most is given up, by whoever holds it. -/
theorem givesUp (ht : h.TakesTurn a h') (hh : t ∈ h.live) (hn : t ∉ h'.live) :
    h.GivesUp a t ∧ ∀ u ∈ h.live, u ≠ t → u ∈ h'.live := by
  obtain ⟨given, o, held, hg, ht, hp⟩ := ht
  cases given with
  | none => exact absurd (hp.mem_iff.mp (ht.keeps hh)) hn
  | some u =>
    have hkeep : ∀ v ∈ h.live, v ≠ u → v ∈ h'.live := fun v hv hne =>
      hp.mem_iff.mp (ht.keeps ((List.mem_erase_of_ne hne).mpr hv))
    obtain rfl : t = u := by
      by_contra hne
      exact hn (hkeep t hh hne)
    exact ⟨(hg t rfl).1, hkeep⟩

/-- A registration whose ticket is still held was not touched by giving up another. -/
theorem giveUp_of_live (hk : Kept opened taken h.live h.link) (hw : w ∈ opened) {given : Option Ticket}
    (hg : ∀ t ∈ given, t ∈ h.live) (hh : w.ticket ∈ heldWithout h.live given) :
    (h.link.giveUp given).heldFor w.id = h.link.heldFor w.id ∧
      (w ∈ h.link.table.entries → w ∈ (h.link.giveUp given).table.entries) := by
  cases given with
  | none => exact ⟨rfl, id⟩
  | some u =>
    obtain ⟨v, hv, rfl⟩ := hk.holders u (hg u rfl)
    have hne : w.id ≠ v.id := fun hid => by
      rw [hk.eq_of_id hw hv hid] at hh
      exact hk.distinct.not_mem_erase hh
    refine ⟨(h.link.heldFor_withdraw _ _).trans (if_neg hne), fun he => ?_⟩
    exact List.mem_filter.mpr ⟨he, by simpa [Waiter.ticket] using hne⟩

/-- What was delivered stays as long as its ticket is held. -/
theorem results (ht : h.TakesTurn a h') (hk : Kept opened taken h.live h.link) (hw : w ∈ opened)
    {r : Except LinkError Packet} (hr : h.link.heldFor w.id = [r]) (hh : w.ticket ∈ h'.live) :
    h'.link.heldFor w.id = [r] := by
  obtain ⟨given, o, held, hg, ht, hp⟩ := ht
  have hk' := hk.giveUp fun t h => (hg t h).2
  have hold := ht.old (hp.mem_iff.mpr hh) (hk'.fresh w hw)
  rw [← (giveUp_of_live hk hw (fun t h => (hg t h).2) hold).1] at hr
  exact ht.results hk' hw hr

/-- An entry leaves the table with its ticket, with its packet, or when the table ends. -/
theorem leaves (ht : h.TakesTurn a h') (hk : Kept opened taken h.live h.link) (hw : w ∈ h.link.table.entries) :
    w ∈ h'.link.table.entries ∨ w.ticket ∉ h'.live ∨ (∃ p, (Moment.mk h a).served = some (w, p)) ∨
      h.link.table.closed = none ∧ h'.link.table.closed.isSome := by
  obtain ⟨given, o, held, hg, ht, hp⟩ := ht
  have hwo := hk.mem_opened hw
  have hopen : h.link.table.closed = none := by
    by_contra hc
    rw [hk.closed (Option.isSome_iff_ne_none.mpr hc)] at hw
    cases hw
  by_cases hh : w.ticket ∈ h'.live
  · have hk' := hk.giveUp fun t h => (hg t h).2
    have hold := ht.old (hp.mem_iff.mpr hh) (hk'.fresh w hwo)
    rcases ht.leaves ((giveUp_of_live hk hwo (fun t h => (hg t h).2) hold).2 hw) with hl | hl | hl
    · exact .inl hl
    · exact .inr (.inr (.inl hl))
    · exact .inr (.inr (.inr ⟨hopen, hl⟩))
  · exact .inr (.inl hh)

end Host.TakesTurn

/-! ## What waits return -/

/-- What a wait brings now: what was delivered, whatever the time, or else, from the deadline on, a timeout. -/
def Host.outcome? (h : Host) (t : Ticket) (deadline : Option Alarm) : Option (Except LinkError Packet) :=
  match h.link.delivery? t.id with
  | some r => some r
  | none => (deadline.filter (·.due ≤ h.now)).map fun _ => .error .timeout

/-- A call goes on with what its wait has brought. -/
def Host.resume (h : Host) (c : Call) (purpose : Purpose) : Except LinkError Packet → Host
  | .ok p => h.concludeExchange c purpose p
  | .error e => h.failExchange c purpose e

namespace Moment

/-- The ticket, and the deadline, of the call that looks at this moment whether its wait is over. -/
def waiting (m : Moment) : Option (Ticket × Option Alarm) :=
  match m.action with
  | .advance (.call id) _ => (m.host.call? id).bind fun c => match c.point with
    | .awaiting t _ deadline _ => some (t, deadline)
    | _ => none
  | _ => none

/-- The wait that is over at this moment, and what it returns. -/
def returned (m : Moment) : Option (Ticket × Except LinkError Packet) :=
  m.waiting.bind fun x => (m.host.outcome? x.1 x.2).map (x.1, ·)

/-- The call that holds `t` goes on with `r`, its registration being withdrawn. -/
def Resumes (m : Moment) (t : Ticket) (r : Except LinkError Packet) : Prop :=
  ∃ (c : Call) (limit : Option Nat) (deadline : Option Alarm) (purpose : Purpose) (h' : Host),
    c ∈ m.host.calls ∧ c.point = .awaiting t limit deadline purpose ∧
      h'.link.desk = (m.host.link.withdraw t.id).desk ∧ h'.calls = m.host.calls ∧ m.after = h'.resume c purpose r

end Moment

/-- One look at whether a wait is over. -/
theorem Host.waitStep_outcome (h : Host) (c : Call) (t : Ticket) (limit : Option Nat) (deadline : Option Alarm)
    (purpose : Purpose) : (h.outcome? t deadline = none ∧ h.waitStep c t limit deadline purpose = none) ∨
    ∃ (r : Except LinkError Packet) (h' : Host), h.outcome? t deadline = some r ∧
      h'.link.desk = (h.link.withdraw t.id).desk ∧ h'.calls = h.calls ∧
      h.waitStep c t limit deadline purpose = some (h'.resume c purpose r) := by
  unfold outcome?
  cases hd : h.link.delivery? t.id with
  | some r =>
    refine .inr ⟨r, { h with link := h.link.withdraw t.id }, rfl, rfl, rfl, ?_⟩
    simp only [waitStep, hd]
    cases r <;> rfl
  | none =>
    cases deadline with
    | none => exact .inl ⟨rfl, by simp only [waitStep, hd]⟩
    | some alarm =>
      by_cases ha : alarm.due ≤ h.now
      · refine .inr ⟨.error .timeout, _, by simp [Option.filter, ha], ?_, ?_, h.waitStep_timedOut hd ha c limit purpose⟩
          <;> rfl
      · exact .inl ⟨by simp [Option.filter, ha], by simp only [waitStep, hd, if_neg ha]⟩

namespace Moment

variable {m : Moment} {t : Ticket} {deadline : Option Alarm} {r : Except LinkError Packet}

/-- The call that looks whether its wait is over. -/
theorem waiting_step (hw : m.waiting = some (t, deadline)) : ∃ (c : Call) (i : Bool) (limit : Option Nat)
    (purpose : Purpose), m.action = .advance (.call c.id) i ∧ m.host.call? c.id = some c ∧
      c.point = .awaiting t limit deadline purpose ∧
      m.host.step (.call c.id) i = m.host.waitStep c t limit deadline purpose := by
  obtain ⟨h, a⟩ := m
  unfold waiting at hw
  split at hw
  · rename_i id i ha
    obtain ⟨c, hc, hp⟩ := Option.bind_eq_some_iff.mp hw
    obtain rfl := Host.call?_id hc
    split at hp
    · rename_i t' limit deadline' purpose hpoint
      cases hp
      refine ⟨c, i, limit, purpose, ha, hc, hpoint, ?_⟩
      show (h.call? c.id).bind h.pointStep = _
      have hc : h.call? c.id = some c := hc
      rw [hc, Option.bind_some, Host.pointStep, hpoint]
    · cases hp
  · cases hw

theorem returned_eq (hw : m.waiting = some (t, deadline)) :
    m.returned = (m.host.outcome? t deadline).map (t, ·) := by
  unfold returned
  rw [hw]
  rfl

/-- **A wait returns its outcome, and only then.** -/
theorem waiting_returned (hw : m.waiting = some (t, deadline)) :
    (m.returned = none ∧ m.after = m.host) ∨ ∃ r, m.returned = some (t, r) ∧ m.Resumes t r := by
  obtain ⟨c, i, limit, purpose, ha, hc, hpoint, hstep⟩ := waiting_step hw
  have hafter : m.after = (m.host.waitStep c t limit deadline purpose).getD m.host := by
    rw [← hstep, after, ha]
    rfl
  rw [returned_eq hw, hafter]
  rcases m.host.waitStep_outcome c t limit deadline purpose with ⟨hn, hs⟩ | ⟨r, h', ho, hd, hcalls, hs⟩
  · exact .inl ⟨by rw [hn]; rfl, by rw [hs]; rfl⟩
  · refine .inr ⟨r, by rw [ho]; rfl, c, limit, deadline, purpose, h', Host.call?_mem hc, hpoint, hd, hcalls, ?_⟩
    rw [hafter, hs]
    rfl

theorem returned_waiting (hr : m.returned = some (t, r)) :
    ∃ deadline, m.waiting = some (t, deadline) ∧ m.host.outcome? t deadline = some r := by
  unfold returned at hr
  obtain ⟨⟨t', deadline⟩, hw, ho⟩ := Option.bind_eq_some_iff.mp hr
  obtain ⟨r', ho, he⟩ := Option.map_eq_some_iff.mp ho
  cases he
  exact ⟨deadline, hw, ho⟩

theorem waiting_live (hw : m.waiting = some (t, deadline)) : t ∈ m.host.live := by
  obtain ⟨c, i, limit, purpose, -, hc, hpoint, -⟩ := waiting_step hw
  exact Host.mem_live (Host.call?_mem hc) (by rw [hpoint]; rfl)

/-- A wait that is over holds its ticket no more. -/
theorem returned_live (hr : m.returned = some (t, r)) (hn : m.host.Numbered) (hd : m.host.live.Nodup)
    (hid : ∀ u ∈ m.host.live, u.id < m.host.link.table.nextId) : t ∈ m.host.live ∧ t ∉ m.after.live := by
  obtain ⟨deadline, hw, ho⟩ := returned_waiting hr
  obtain ⟨c, i, limit, purpose, ha, hc, hpoint, hstep⟩ := waiting_step hw
  -- the step is a move, for the wait brings something
  obtain ⟨h', hs⟩ : ∃ h', m.host.callStep c.id = some h' := by
    rcases m.host.waitStep_outcome c t limit deadline purpose with ⟨hnone, -⟩ | ⟨r', h', -, -, -, hs⟩
    · rw [ho] at hnone
      cases hnone
    · exact ⟨_, hstep.trans hs⟩
  obtain ⟨c', mv, hc', hmove, hl⟩ := Host.callStep_move hs
  obtain rfl : c = c' := Option.some.inj (hc.symm.trans hc')
  have hafter : m.after = h' := by
    rw [after, ha]
    show (m.host.callStep c.id).getD m.host = _
    rw [hs]
    rfl
  obtain ⟨others, hbefore, hothers, -⟩ := Host.live_split hn (Host.call?_mem hc)
  have hown : c.point.ticket? = some t := by
    rw [hpoint]
    rfl
  rw [hown] at hbefore
  have hout : t ∉ others := (List.nodup_cons.mp (hbefore.nodup_iff.mp hd)).1
  have hlive : t ∈ m.host.live := hbefore.mem_iff.mpr List.mem_cons_self
  refine ⟨hlive, fun hlive' => ?_⟩
  have hperm : m.after.live.Perm ((mv.ticketAfter c).toList ++ others) := by
    rw [hafter]
    unfold Host.live
    rw [hl.tickets, hl.calls]
    exact hothers mv
  rcases List.mem_append.mp (hperm.mem_iff.mp hlive') with hown' | hown'
  · rw [hpoint] at hmove
    exact hmove.waitOver (hid t hlive) (by simpa using hown')
  · exact hout hown'

/-- A ticket that a call held and somebody still holds is with that call. -/
theorem ends {id : Nat} {i : Bool} {c : Call} (ha : m.action = .advance (.call id) i) (hc : m.host.call? id = some c)
    (hown : c.point.ticket? = some t) (hh : t ∈ m.after.live) (ht : m.host.Tidy) (hd : m.host.live.Nodup) :
    ∃ c', m.after.call? id = some c' ∧ c'.point.ticket? = some t := by
  have hn := ht.numbered
  obtain ⟨others, hbefore, hothers, -⟩ := Host.live_split hn (Host.call?_mem hc)
  rw [hown] at hbefore
  have hout : t ∉ others := (List.nodup_cons.mp (hbefore.nodup_iff.mp hd)).1
  have hacts := Moment.acts ht.claimed
  have hn' := hn.acts hacts
  obtain rfl := Host.call?_id hc
  generalize m.after = h' at hacts hh hn'
  rw [ha] at hacts
  cases hacts with
  | idle a hr => exact ⟨c, hc, hown⟩
  | @call _ _ c' mv h' hc' hm hl =>
    obtain rfl : c = c' := Option.some.inj (hc.symm.trans hc')
    have hperm : h'.live.Perm ((mv.ticketAfter c).toList ++ others) := by
      unfold Host.live
      rw [hl.tickets, hl.calls]
      exact hothers mv
    have hafter : mv.ticketAfter c = some t := by
      rcases List.mem_append.mp (hperm.mem_iff.mp hh) with h | h
      · simpa using h
      · exact absurd h hout
    unfold Move.ticketAfter at hafter
    split at hafter
    · rename_i p keeps hf
      have hmem := Move.mem_callsAfter_of_goes (Host.call?_mem hc) hf
      rw [← hl.calls] at hmem
      have hcall := hn'.call?_of_mem hmem
      exact ⟨_, hcall, hafter⟩
    · cases hafter
    · rename_i hf
      have hmem : c ∈ h'.calls := by
        rw [hl.calls]
        unfold Move.callsAfter
        rw [hf]
        exact Host.call?_mem hc
      exact ⟨c, hn'.call?_of_mem hmem, hafter⟩

end Moment

/-- What a wait can return, `w` being its registration: the packet taken for it, which it accepts; or a timeout or the
end of the link, if no packet was taken for it. -/
inductive Resolution (l : Link) (taken : List (Waiter × Packet)) (w : Waiter) : Except LinkError Packet → Prop
  | packet (p : Packet) (ht : (w, p) ∈ taken) (htype : p.type = w.type) (hm : w.matcher.accepts p) :
      Resolution l taken w (.ok p)
  | timeout (hn : ∀ p, (w, p) ∉ taken) : Resolution l taken w (.error .timeout)
  | closed (reason : String) (hc : l.table.closed = some reason) (hn : ∀ p, (w, p) ∉ taken) :
      Resolution l taken w (.error (.closed reason))

/-- The event that the listener takes is the oldest in the queue. -/
theorem Moment.taken_queue {m : Moment} {event : LinkEvent} (ht : m.taken = some event) :
    ∃ events woken, m.host.link.events.take? = some (event, events, woken) := by
  have htake : m.host.link.events.take?.map (·.1) = some event →
      ∃ events woken, m.host.link.events.take? = some (event, events, woken) := fun h => by
    obtain ⟨⟨_, events, woken⟩, he, rfl⟩ := Option.map_eq_some_iff.mp h
    exact ⟨events, woken, he⟩
  unfold taken at ht
  split at ht
  · unfold Host.takeEvent? at ht
    split at ht
    · rw [Option.map_map] at ht
      exact htake ht
    · cases ht
  · split at ht
    · exact htake ht
    · cases ht
  · cases ht

/-- What a moment does to registrations, `opened` being those opened before it and `taken` the packets taken for them. -/
structure Moment.Settles (opened : List Waiter) (taken : List (Waiter × Packet)) (m : Moment) : Prop where
  /-- A call that waits goes on as soon as it finds its packet, the end of the link or its deadline, and stays where it
  is until then. -/
  waits : ∀ t deadline, m.waiting = some (t, deadline) →
    (m.returned = none ∧ m.after = m.host ∧ m.host.link.delivery? t.id = none ∧ ∀ d ∈ deadline, m.host.now < d.due) ∨
    ∃ r, m.returned = some (t, r) ∧ m.Resumes t r
  /-- What a wait returns is one of three things, and its ticket is given up with that. -/
  returns : ∀ t r, m.returned = some (t, r) →
    t ∈ m.host.live ∧ t ∉ m.after.live ∧ ∃ w ∈ opened, w.ticket = t ∧ Resolution m.host.link taken w r
  /-- A packet that was taken for a wait is what it returns, whatever its deadline. -/
  served : ∀ w p deadline, (w, p) ∈ taken → m.waiting = some (w.ticket, deadline) →
    m.returned = some (w.ticket, .ok p)
  /-- Only its holder gives up a ticket, and no other with it. -/
  givesUp : ∀ t ∈ m.host.live, t ∉ m.after.live →
    m.host.GivesUp m.action t ∧ ∀ u ∈ m.host.live, u ≠ t → u ∈ m.after.live
  /-- A call that ends, or goes on without its ticket, gives it up. -/
  ends : ∀ id i c t, m.action = .advance (.call id) i → m.host.call? id = some c → c.point.ticket? = some t →
    t ∈ m.after.live → ∃ c', m.after.call? id = some c' ∧ c'.point.ticket? = some t
  /-- An entry leaves the table with its ticket, with its packet, or when the table ends. -/
  leaves : ∀ w ∈ m.host.link.table.entries,
    w ∈ m.after.link.table.entries ∨ w.ticket ∉ m.after.live ∨ (∃ p, m.served = some (w, p)) ∨
      m.host.link.table.closed = none ∧ m.after.link.table.closed.isSome

/-! ## Every run -/

namespace Setup

theorem turn_run (setup : Setup) (as : List Action) (a : Action) :
    (setup.host.run as).TakesTurn a (setup.host.run (as ++ [a])) := by
  rw [Host.run_concat]
  exact (setup.acts_run as a).turn (setup.numbered_run as) (setup.ordered_run as)

/-- **The accounts are kept by every run.** -/
theorem kept_run (setup : Setup) (as : List Action) :
    Kept ((setup.host.moments as).flatMap Moment.opened) ((setup.host.moments as).filterMap Moment.served)
      (setup.host.run as).live (setup.host.run as).link := by
  induction as using List.reverseRecOn with
  | nil => cases setup <;> exact ⟨.nil, nofun, nofun, .nil, .refl _, nofun, .nil, nofun, fun _ => rfl, nofun⟩
  | append_singleton as a ih =>
    have := (setup.turn_run as a).kept ih
    rw [Host.seen_concat, Host.moments_concat, List.flatMap_append, List.flatMap_singleton]
    rw [Host.run_concat] at this ⊢
    exact this

/-- A ticket that is not held is not held again. -/
theorem live_mono (setup : Setup) (as bs : List Action) :
    (setup.host.run as).link.table.nextId ≤ (setup.host.run (as ++ bs)).link.table.nextId ∧
    ∀ t : Ticket, t.id < (setup.host.run as).link.table.nextId → t ∈ (setup.host.run (as ++ bs)).live →
      t ∈ (setup.host.run as).live := by
  induction bs using List.reverseRecOn with
  | nil => simp
  | append_singleton bs b ih =>
    have ht := setup.turn_run (as ++ bs) b
    rw [← List.append_assoc]
    exact ⟨Nat.le_trans ih.1 ht.nextId,
      fun t hid hl => ih.2 t hid (ht.old hl (Nat.lt_of_lt_of_le hid ih.1))⟩

/-- A closed table stays closed, for the first reason. -/
theorem closed_mono (setup : Setup) (as bs : List Action) {reason : String}
    (hc : (setup.host.run as).link.table.closed = some reason) :
    (setup.host.run (as ++ bs)).link.table.closed = some reason := by
  induction bs using List.reverseRecOn with
  | nil => rwa [List.append_nil]
  | append_singleton bs b ih =>
    rw [← List.append_assoc]
    exact (setup.turn_run (as ++ bs) b).closed ih

/-- What was delivered stays as long as its ticket is held. -/
theorem results_mono (setup : Setup) (as bs : List Action) {w : Waiter}
    (hw : w ∈ (setup.host.moments as).flatMap Moment.opened) {r : Except LinkError Packet}
    (hr : (setup.host.run as).link.heldFor w.id = [r]) (hh : w.ticket ∈ (setup.host.run (as ++ bs)).live) :
    (setup.host.run (as ++ bs)).link.heldFor w.id = [r] := by
  induction bs using List.reverseRecOn with
  | nil => rwa [List.append_nil]
  | append_singleton bs b ih =>
    have ht := setup.turn_run (as ++ bs) b
    rw [← List.append_assoc] at hh ⊢
    have hk := setup.kept_run (as ++ bs)
    have hw' : w ∈ (setup.host.moments (as ++ bs)).flatMap Moment.opened := by
      rw [Host.moments_append, List.flatMap_append]
      exact List.mem_append_left _ hw
    exact ht.results hk hw' (ih (ht.old hh (hk.fresh w hw'))) hh

/-- Of a registration that was given up nothing is left, now or later. -/
theorem gone_run (setup : Setup) (as bs : List Action) {w : Waiter}
    (hw : w ∈ (setup.host.moments as).flatMap Moment.opened) (hn : w.ticket ∉ (setup.host.run as).live) :
    w.ticket ∉ (setup.host.run (as ++ bs)).live ∧ (∀ v ∈ (setup.host.run (as ++ bs)).link.table.entries, v.id ≠ w.id) ∧
      (setup.host.run (as ++ bs)).link.delivery? w.id = none := by
  have hn' : w.ticket ∉ (setup.host.run (as ++ bs)).live := fun h =>
    hn ((setup.live_mono as bs).2 w.ticket ((setup.kept_run as).fresh w hw) h)
  refine ⟨hn', (setup.kept_run (as ++ bs)).gone ?_ hn'⟩
  rw [Host.moments_append, List.flatMap_append]
  exact List.mem_append_left _ hw

/-- Whoever waits when the table ends is told so. -/
theorem ended_of_closed (setup : Setup) (as : List Action) (a : Action) {reason : String} {w : Waiter}
    (ho : (setup.host.run as).link.table.closed = none)
    (hc : (setup.host.run (as ++ [a])).link.table.closed = some reason)
    (hw : w ∈ (setup.host.run as).link.table.entries) (hh : w.ticket ∈ (setup.host.run (as ++ [a])).live) :
    (setup.host.run (as ++ [a])).link.heldFor w.id = [.error (.closed reason)] := by
  have hk := setup.kept_run as
  have hk' := setup.kept_run (as ++ [a])
  rw [Host.seen_concat, Host.moments_concat, List.flatMap_append] at hk'
  cases hk'.lots w (List.mem_append_left _ (hk.mem_opened hw)) with
  | waiting he =>
    rw [hk'.closed (by rw [hc]; rfl)] at he
    cases he
  | answered p _ _ _ ht =>
    -- no packet was taken before, and one taken now does not end the table
    rcases List.mem_append.mp ht with ht | ht
    · exact absurd ht ((hk.of_mem hw).2.2 p)
    · rw [(setup.turn_run as a).closed_of_served (Option.mem_toList.mp ht), ho] at hc
      cases hc
  | ended reason' _ _ hr hc' =>
    obtain rfl : reason = reason' := Option.some.inj (hc.symm.trans hc')
    exact hr
  | gone _ hn => exact absurd hh hn

theorem settles (setup : Setup) (as : List Action) (a : Action) :
    (Moment.mk (setup.host.run as) a).Settles ((setup.host.moments as).flatMap Moment.opened)
      ((setup.host.moments as).filterMap Moment.served) := by
  have hk := setup.kept_run as
  have ht := setup.turn_run as a
  rw [Host.run_concat] at ht
  have hn := setup.numbered_run as
  constructor
  · intro t deadline hw
    refine (Moment.waiting_returned hw).imp_left fun ⟨hret, hafter⟩ => ?_
    have ho : (setup.host.run as).outcome? t deadline = none := by
      have hret := hret
      rw [Moment.returned_eq hw] at hret
      simpa using hret
    unfold Host.outcome? at ho
    cases hd : (setup.host.run as).link.delivery? t.id with
    | some r => rw [hd] at ho; cases ho
    | none =>
      rw [hd] at ho
      refine ⟨hret, hafter, rfl, fun d hdl => ?_⟩
      obtain rfl : deadline = some d := hdl
      simpa [Option.filter] using ho
  · intro t r hr
    obtain ⟨hlive, hgone⟩ := Moment.returned_live hr hn hk.distinct fun u hu => hk.lt_nextId hu
    obtain ⟨w, hw, rfl⟩ := hk.holders t hlive
    obtain ⟨deadline, -, ho⟩ := Moment.returned_waiting hr
    refine ⟨hlive, hgone, w, hw, rfl, ?_⟩
    unfold Host.outcome? at ho
    rcases hk.delivery? hw hlive with ⟨hd, -, hno⟩ | ⟨p, hd, -, hp⟩ | ⟨reason, hd, -, hc, hno⟩
    · rw [show (setup.host.run as).link.delivery? w.ticket.id = none from hd] at ho
      obtain ⟨-, -, rfl⟩ := Option.map_eq_some_iff.mp ho
      exact .timeout hno
    · rw [show (setup.host.run as).link.delivery? w.ticket.id = some (.ok p) from hd] at ho
      cases ho
      have hacc := (w.accepts_iff p).mp (hk.accepted _ hp).2
      exact .packet p hp hacc.1.symm hacc.2
    · rw [show (setup.host.run as).link.delivery? w.ticket.id = some (.error (.closed reason)) from hd] at ho
      cases ho
      exact .closed reason hc hno
  · intro w p deadline hwp hw
    have hwo := (hk.accepted _ hwp).1
    rw [Moment.returned_eq hw]
    unfold Host.outcome?
    rcases hk.delivery? hwo (Moment.waiting_live hw) with ⟨-, -, hno⟩ | ⟨q, hd, -, hq⟩ | ⟨reason, -, -, -, hno⟩
    · exact absurd hwp (hno p)
    · obtain rfl := hk.eq_of_taken hwp hq
      rw [show (Moment.mk (setup.host.run as) a).host.link.delivery? w.ticket.id = some (.ok p) from hd]
      rfl
    · exact absurd hwp (hno p)
  · intro t hh hno
    exact ht.givesUp hh hno
  · intro id i c t ha hc hown hh
    exact Moment.ends ha hc hown hh (setup.tidy_run as) hk.distinct
  · intro w hw
    exact ht.leaves hk hw

/-- After the end of its loop the table is closed. -/
theorem closed_of_ended (setup : Setup) (as : List Action) (he : (setup.host.run as).link.loop.ended) :
    (setup.host.run as).link.table.closed.isSome := by
  induction as using List.reverseRecOn with
  | nil => cases setup <;> cases he
  | append_singleton as a ih =>
    -- whatever the action does, a table that is closed stays so
    have hkept : (setup.host.run as).link.loop.ended → (setup.host.run (as ++ [a])).link.table.closed.isSome :=
      fun he => by
        obtain ⟨reason, hc⟩ := Option.isSome_iff_exists.mp (ih he)
        rw [setup.closed_mono as [a] hc]
        rfl
    rw [Host.run_concat] at he hkept ⊢
    have ha := setup.acts_run as a
    generalize (setup.host.run as).apply a = h' at ha he hkept ⊢
    rcases ha.link (setup.unstarted_run as) with ⟨i, t, rfl, hm, ht⟩ | ⟨events, hl⟩ | ⟨ok, hl⟩
    · rw [ht.link] at he hkept ⊢
      generalize hq : (setup.host.run as).link.loop = q at hm hkept
      cases hm with
      | readFailed | hungUp | told | deserted | misframed | writeFailed => rfl
      | parts | partsUnheard | partsLater => exact hkept rfl
      | waits => rw [hq] at he; cases he
      | _ => cases he
    · exact hkept (by rwa [hl] at he)
    · rcases hl.frame.loop with hloop | ⟨-, hloop⟩
      · exact hkept (by rwa [hloop] at he)
      · rw [hloop] at he
        cases he

/-- The listener hears of the end of the link after the table is closed. -/
theorem closed_of_taken (setup : Setup) (as : List Action) (a : Action) {reason : String}
    (ht : (Moment.mk (setup.host.run as) a).taken = some (.closed reason)) :
    (setup.host.run as).link.table.closed.isSome := by
  obtain ⟨closing, hp⟩ := setup.passed_run as
  refine setup.closed_of_ended as ?_
  obtain ⟨events, woken, he⟩ := Moment.taken_queue ht
  obtain ⟨hq, -⟩ := Channel.take_eq_some he
  have hopen : (setup.host.run as).link.events.closed = false := by
    by_contra hc
    rw [hp.deaf (by simpa using hc)] at hq
    cases hq
  have hmem : LinkEvent.closed reason ∈ ((setup.host.moments as).filterMap Moment.forwarded).map .packet ++ closing := by
    rw [← hp.listening hopen, hq]
    simp
  by_contra hn
  rw [hp.running (by simpa using hn)] at hmem
  simp at hmem

end Setup

end TwinLink
