import TwinLink.Proofs.Host.Runs

/-!
# Who holds registrations

Whoever opens a registration holds its ticket, and withdraws the registration in the step in which it gives the ticket
up. So wherever a run has come to, every registration in the table has a holder, and what the loop looks up it can hand
over: on one thread no step of a holder comes between the two.

* `Link.desk` : the table and the deliveries, on which registrations depend;
* `Swap`, `CallMove.swap` : what a move of a call makes of its ticket and of the link;
* `Host.live_split` : the tickets of the others stay what they are when a call moves or ends;
* `Host.Tidy` : calls are numbered and registrations are claimed; `Host.Tidy.apply`, `Setup.tidy_run`;
* `Setup.acts_run` : every action of a run is one of those that `Acts` lists;
* `Setup.handOver_lookUp` : in no run does the loop find that a holder has given up.
-/

namespace TwinLink

/-! ## What a call makes of its ticket -/

namespace Link

variable {l l' : Link}

/-- The table of waiters and what was delivered. -/
def desk (l : Link) : WaitTable × List (Nat × Except LinkError Packet) := (l.table, l.deliveries)

theorem table_of_desk (he : l'.desk = l.desk) : l'.table = l.table := congrArg Prod.fst he

theorem deliveries_of_desk (he : l'.desk = l.desk) : l'.deliveries = l.deliveries := congrArg Prod.snd he

/-- Withdrawing again changes nothing. -/
theorem withdraw_withdraw (l : Link) (id : Nat) : (l.withdraw id).withdraw id = l.withdraw id := by
  simp [withdraw, WaitTable.cancel_cancel, List.filter_filter]

/-- The link without a registration that is given up. -/
def giveUp (l : Link) (t : Option Ticket) : Link := t.elim l fun t => l.withdraw t.id

theorem desk_giveUp (he : l'.desk = l.desk) (t : Option Ticket) : (l'.giveUp t).desk = (l.giveUp t).desk := by
  cases t with
  | none => exact he
  | some t => simp only [giveUp, Option.elim_some, withdraw, desk, table_of_desk he, deliveries_of_desk he]

theorem desk_shut (he : l'.desk = l.desk) (reason : String) : (l'.shut reason).desk = (l.shut reason).desk := by
  simp only [shut, desk, table_of_desk he, deliveries_of_desk he]

theorem desk_enroll (he : l'.desk = l.desk) (type : UInt8) (matcher : Matcher) :
    (l'.enroll type matcher).desk = (l.enroll type matcher).desk := by
  simp only [enroll, desk, table_of_desk he, deliveries_of_desk he]

theorem giveUp_giveUp (l : Link) (t : Option Ticket) : (l.giveUp t).giveUp t = l.giveUp t := by
  cases t with
  | none => rfl
  | some t => exact l.withdraw_withdraw t.id

theorem table_giveUp (l : Link) (t : Option Ticket) :
    (l.giveUp t).table.nextId = l.table.nextId ∧ (l.giveUp t).table.closed = l.table.closed := by
  cases t <;> exact ⟨rfl, rfl⟩

theorem desk_vacate (l : Link) (c : Call) : (l.vacate c).desk = (l.giveUp c.point.ticket?).desk := by
  unfold vacate giveUp
  cases c.point.ticket? <;> rfl

end Link

/-- What a move makes of the ticket `own` of its call, and of the link: the ticket is kept and nothing changes, or it is
given up, and a new one may be had for it or the table may end. -/
inductive Swap (l : Link) (own : Option Ticket) : Option Ticket → Link → Prop
  | keeps {l' : Link} (he : l'.desk = l.desk) : Swap l own own l'
  | drops {l' : Link} (he : l'.desk = (l.giveUp own).desk) : Swap l own none l'
  | enrolls (type : UInt8) (matcher : Matcher) (ho : l.table.closed = none) {l' : Link}
      (he : l'.desk = ((l.giveUp own).enroll type matcher).desk) : Swap l own (some ⟨l.table.nextId, type⟩) l'
  | shuts (reason : String) {l' : Link} (he : l'.desk = ((l.giveUp own).shut reason).desk) : Swap l own none l'

/-- The ticket of a call after a move. -/
def Move.ticketAfter (m : Move) (c : Call) : Option Ticket :=
  match m.fate with
  | .goes p _ => p.ticket?
  | .ends _ => none
  | .stays => c.point.ticket?

namespace Swap

variable {h : Host} {c : Call} {l : Link} {s : Session} {notes : List Happening} {m : Move}

/-- A call that ends gives up its ticket, if it has not done so before. -/
theorem ends (he : l.desk = h.link.desk ∨ l.desk = (h.link.giveUp c.point.ticket?).desk) (answer : Answer) :
    Swap h.link c.point.ticket? ((Move.mk l s notes (.ends answer)).ticketAfter c)
      ((Move.mk l s notes (.ends answer)).linkAfter c) := by
  refine .drops ?_
  show (l.vacate c).desk = _
  rw [Link.desk_vacate]
  rcases he with he | he
  · exact Link.desk_giveUp he _
  · rw [Link.desk_giveUp he, Link.giveUp_giveUp]

theorem fails {purpose : Purpose} {e : LinkError} (hf : Fails h l notes purpose e m)
    (he : l.desk = (h.link.giveUp c.point.ticket?).desk) :
    Swap h.link c.point.ticket? (m.ticketAfter c) (m.linkAfter c) := by
  cases hf with
  | direct | operation => exact ends (.inr he) _
  | retry => exact .drops he
  | fault => exact .shuts _ (Link.desk_shut he _)

theorem attempts {stage : Stage} {retries : Nat} (ha : Attempts l s notes stage retries m)
    (he : l.desk = (h.link.giveUp c.point.ticket?).desk) :
    Swap h.link c.point.ticket? (m.ticketAfter c) (m.linkAfter c) := by
  obtain ⟨hn, hc⟩ := h.link.table_giveUp c.point.ticket?
  cases ha with
  | opened ho =>
    show Swap _ _ (some ⟨l.table.nextId, _⟩) _
    rw [Link.table_of_desk he, hn]
    refine .enrolls _ .any ?_ (Link.desk_enroll he _ _)
    rw [← hc, ← Link.table_of_desk he, ho]
  | closed => exact .shuts _ (Link.desk_shut he _)

end Swap

theorem CallMove.swap {h : Host} {c : Call} {q : Point} {m : Move} (hm : CallMove h c q m) (hq : c.point = q) :
    Swap h.link c.point.ticket? (m.ticketAfter c) (m.linkAfter c) := by
  have hown : c.point.ticket? = q.ticket? := by rw [hq]
  -- a call without a ticket has none to give up
  have hnone : q.ticket? = none → h.link.desk = (h.link.giveUp c.point.ticket?).desk := fun hn => by
    rw [hown, hn]
    rfl
  have hsome : ∀ {t}, q.ticket? = some t → (h.link.withdraw t.id).desk = (h.link.giveUp c.point.ticket?).desk :=
    fun ht => by
      rw [hown, ht]
      rfl
  have hfailed : ∀ {t}, q.ticket? = t → ∀ {l : Link}, l.desk = h.link.desk →
      (t.elim l fun t => l.withdraw t.id).desk = (h.link.giveUp c.point.ticket?).desk := fun ht l he => by
    rw [hown, ht]
    exact Link.desk_giveUp he _
  cases hm with
  | begin hm =>
    cases hm with
    | send | await | operate | twinOperate => rw [hown]; exact .keeps rfl
    | exchange p expect limit ho | receive type limit ho => exact .enrolls _ _ ho (Link.desk_enroll (hnone rfl) _ _)
    | exchangeRefused | receiveRefused | startFaulted | startTaken | operateRefused | twinRefused | twinDropped
      | closeIdle => exact Swap.ends (.inl rfl) _
    | start hp ht ha => exact Swap.attempts ha (hnone rfl)
    | shutDown | close => exact .shuts _ (Link.desk_shut (hnone rfl) _)
  | locked plan ha ho => exact .enrolls _ _ ho (Link.desk_enroll (hnone rfl) _ _)
  | lockedClosed | sent | started | updated | told | untold => exact Swap.ends (.inl (by rfl)) _
  | lined | queued | telling => exact .keeps rfl
  | entered | written | asked | skipped | registered => rw [hown]; exact .keeps rfl
  | shutOut frame ticket limit purpose hc hf => exact Swap.fails hf (hfailed rfl rfl)
  | unwritten ticket limit purpose e hr hf => exact Swap.fails hf (hfailed rfl rfl)
  | failed ticket limit alarm purpose e hd hf => exact Swap.fails hf (hsome rfl)
  | timedOut ticket limit alarm purpose hd ha hf => exact Swap.fails hf (hsome rfl)
  | received | unreadable | answered => exact Swap.ends (.inr (hsome rfl)) _
  | taken | described => exact .drops (hsome rfl)
  | acknowledged ticket limit alarm retries p hd ha => exact Swap.attempts ha (hsome rfl)
  | misdescribed => exact .shuts _ (Link.desk_shut (hsome rfl) _)
  | paused alarm stage retries ha hm => exact Swap.attempts hm (hnone rfl)
  | refused => exact .shuts _ (Link.desk_shut (hnone rfl) _)

/-! ## Tickets held -/

namespace Host

variable {h h' : Host}

theorem mem_live {c : Call} {t : Ticket} (hc : c ∈ h.calls) (ht : c.point.ticket? = some t) : t ∈ h.live :=
  List.mem_append_right _ (List.mem_filterMap.mpr ⟨c, hc, ht⟩)

theorem filterMap_ticket (as bs : List Call) (c : Call) : (as ++ c :: bs).filterMap (·.point.ticket?) =
    as.filterMap (·.point.ticket?) ++ (c.point.ticket?.toList ++ bs.filterMap (·.point.ticket?)) := by
  rw [List.filterMap_append]
  congr 1
  cases ht : c.point.ticket? <;> simp [ht]

/-- The tickets of the others stay what they are when a call moves or ends. -/
theorem live_split (hn : h.Numbered) {c : Call} (hc : c ∈ h.calls) : ∃ others,
    h.live.Perm (c.point.ticket?.toList ++ others) ∧
    (∀ m : Move, (h.tickets ++ (m.callsAfter c h.calls).filterMap (·.point.ticket?)).Perm
      ((m.ticketAfter c).toList ++ others)) ∧
    (h.tickets ++ (h.calls.filter fun x => x.id != c.id).filterMap (·.point.ticket?)).Perm others := by
  obtain ⟨as, bs, hcalls⟩ := List.append_of_mem hc
  have hord := hn.ordered
  rw [hcalls, List.map_append, List.map_cons, List.pairwise_append, List.pairwise_cons] at hord
  obtain ⟨-, ⟨hbs, -⟩, has⟩ := hord
  have has : ∀ x ∈ as, x.id ≠ c.id := fun x hx =>
    Nat.ne_of_lt (has _ (List.mem_map_of_mem hx) _ List.mem_cons_self)
  have hbs : ∀ x ∈ bs, x.id ≠ c.id := fun x hx => (Nat.ne_of_lt (hbs _ (List.mem_map_of_mem hx))).symm
  have hfilter : h.calls.filter (fun x => x.id != c.id) = as ++ bs := by
    rw [hcalls, List.filter_append, List.filter_cons_of_neg (by simp), List.filter_eq_self.mpr (by simpa using has),
      List.filter_eq_self.mpr (by simpa using hbs)]
  have hmove : ∀ p keeps, h.calls.map (Call.goTo p keeps c.id) =
      as ++ { c with point := p, holds := keeps || c.holds } :: bs := fun p keeps => by
    have hsame : ∀ xs : List Call, (∀ x ∈ xs, x.id ≠ c.id) → xs.map (Call.goTo p keeps c.id) = xs := fun xs hxs => by
      rw [List.map_congr_left (g := id) fun x hx => by simp [Call.goTo, hxs x hx], List.map_id]
    rw [hcalls, List.map_append, List.map_cons, hsame as has, hsame bs hbs]
    simp [Call.goTo]
  have hmiddle : ∀ t : Option Ticket, (h.tickets ++ (as.filterMap (·.point.ticket?) ++ (t.toList ++
      bs.filterMap (·.point.ticket?)))).Perm
      (t.toList ++ (h.tickets ++ (as.filterMap (·.point.ticket?) ++ bs.filterMap (·.point.ticket?)))) := fun t =>
    ((List.perm_append_comm_assoc _ _ _).append_left _).trans (List.perm_append_comm_assoc _ _ _)
  refine ⟨h.tickets ++ (as.filterMap (·.point.ticket?) ++ bs.filterMap (·.point.ticket?)), ?_, fun m => ?_, ?_⟩
  · unfold live
    rw [hcalls, filterMap_ticket]
    exact hmiddle _
  · unfold Move.callsAfter Move.ticketAfter
    cases hf : m.fate with
    | goes p keeps =>
      dsimp only
      rw [hmove, filterMap_ticket]
      exact hmiddle _
    | ends answer =>
      dsimp only
      rw [hfilter, List.filterMap_append]
      exact .refl _
    | stays =>
      dsimp only
      rw [hcalls, filterMap_ticket]
      exact hmiddle _
  · rw [hfilter, List.filterMap_append]

/-- A new call takes its ticket from the application. -/
theorem live_make {r : Request} (hm : h.canMake r) :
    (h.ticketsWithout r ++ (h.calls ++ [({ id := h.made, point := .begun r, holds := r.holdsAtOnce } : Call)]).filterMap
      (·.point.ticket?)).Perm h.live := by
  unfold live
  rw [List.filterMap_append]
  cases r with
  | await t limit =>
    have ht : t ∈ h.tickets := by simpa [canMake] using hm
    have : (h.tickets.erase t ++ (h.calls.filterMap (·.point.ticket?) ++ [t])).Perm
        (h.tickets ++ h.calls.filterMap (·.point.ticket?)) := by
      rw [← List.append_assoc]
      refine (List.perm_append_singleton _ _).trans ?_
      exact ((List.perm_cons_erase ht).symm.append_right _)
    simpa [ticketsWithout, Point.ticket?] using this
  | _ => simp [ticketsWithout, Point.ticket?]

end Host

/-! ## Registrations are claimed -/

namespace Link.ClaimedBy

variable {l l' : Link} {held held' others : List Ticket} {own own' : Option Ticket}

/-- Who gives up a ticket leaves no registration behind. -/
theorem giveUp (hc : l.ClaimedBy held) (hp : held.Perm (own.toList ++ others)) :
    (l.giveUp own).ClaimedBy others := by
  intro w hw
  cases own with
  | none => exact hp.mem_iff.mp (hc w hw)
  | some t =>
    obtain ⟨hw, hne⟩ := List.mem_filter.mp hw
    rcases List.mem_cons.mp (hp.mem_iff.mp (hc w hw)) with ht | ht
    · rw [← ht] at hne
      simp [Waiter.ticket] at hne
    · exact ht

theorem congr (hc : l.ClaimedBy held) (he : l'.desk = l.desk) (hs : held ⊆ held') : l'.ClaimedBy held' := by
  intro w hw
  rw [table_of_desk he] at hw
  exact hs (hc w hw)

theorem enroll (hc : l.ClaimedBy held) (type : UInt8) (matcher : Matcher) :
    (l.enroll type matcher).ClaimedBy (⟨l.table.nextId, type⟩ :: held) := by
  intro w hw
  rcases List.mem_append.mp hw with hw | hw
  · exact List.mem_cons_of_mem _ (hc w hw)
  · obtain rfl := List.mem_singleton.mp hw
    exact List.mem_cons_self

theorem swap (hc : l.ClaimedBy held) (hs : Swap l own own' l') (hb : held.Perm (own.toList ++ others))
    (ha : held'.Perm (own'.toList ++ others)) : l'.ClaimedBy held' := by
  cases hs with
  | keeps he => exact hc.congr he (hb.trans ha.symm).subset
  | drops he => exact (hc.giveUp hb).congr he ha.symm.subset
  | enrolls type matcher ho he =>
    rw [← (l.table_giveUp own).1] at ha
    exact ((hc.giveUp hb).enroll type matcher).congr he ha.symm.subset
  | shuts reason he =>
    intro w hw
    rw [table_of_desk he] at hw
    cases hw

end Link.ClaimedBy

theorem LoopMove.entries {h : Host} {q : LoopPoint} {t : LoopTurn} (hm : LoopMove h q t) :
    t.link.table.entries ⊆ h.link.table.entries := by
  cases hm with
  | readFailed | hungUp | told | deserted | misframed | writeFailed => exact List.nil_subset _
  | matched frame rest fault p hp hm => exact (WaitTable.takeMatch_sublist hm).2.subset
  | _ => exact fun _ => id

theorem DispatchMove.table {h : Host} {q : DispatchPoint} {t : DispatchTurn} (hm : DispatchMove h q t) :
    t.link.table = h.link.table := by
  cases hm <;> rfl

/-- **Every action leaves the registrations with their holders.** -/
theorem Host.Claimed.acts {h h' : Host} {a : Action} (hc : h.Claimed) (hn : h.Numbered) (ha : Acts h a h') :
    h'.Claimed := by
  have hlive : h'.tickets = h.tickets → h'.calls = h.calls → h'.live = h.live := fun ht hcs => by
    unfold live
    rw [ht, hcs]
  cases ha with
  | loop i hm ht =>
    intro w hw
    rw [hlive ht.tickets ht.calls]
    exact hc w (hm.entries (ht.link ▸ hw))
  | dispatcher i hm ht =>
    intro w hw
    rw [ht.link, hm.table] at hw
    rw [hlive ht.tickets ht.calls]
    exact hc w hw
  | @call _ i c m h' hcall hm hl =>
    obtain ⟨others, hbefore, hafter, -⟩ := live_split hn (call?_mem hcall)
    have hswap := hm.swap rfl
    rw [← hl.link] at hswap
    refine Link.ClaimedBy.swap hc hswap hbefore ?_
    unfold live
    rw [hl.tickets, hl.calls]
    exact hafter m
  | make r hm ready => exact Link.ClaimedBy.congr hc rfl (live_make hm).symm.subset
  | @abandon _ c hcall released hr ready =>
    obtain ⟨others, hbefore, -, hafter⟩ := live_split hn (call?_mem hcall)
    exact (Link.ClaimedBy.giveUp hc hbefore).congr (Link.desk_vacate _ _) hafter.symm.subset
  | register type matcher ho =>
    refine (Link.ClaimedBy.enroll hc type matcher).congr rfl fun t ht => ?_
    rcases List.mem_cons.mp ht with rfl | ht
    · exact List.mem_append_left _ (List.mem_append_right _ (List.mem_singleton.mpr rfl))
    · exact (List.mem_append.mp ht).elim (fun ht => List.mem_append_left _ (List.mem_append_left _ ht))
        (List.mem_append_right _)
  | withdraw t ht =>
    have hp : h.live.Perm (t :: (h.tickets.erase t ++ h.calls.filterMap (·.point.ticket?))) :=
      (List.perm_cons_erase ht).append_right _
    have hgone : (h.link.giveUp (some t)).ClaimedBy _ := Link.ClaimedBy.giveUp hc hp
    exact hgone
  | _ => exact hc

/-! ## Runs -/

/-- Calls are numbered, and every registration in the table has a holder. -/
structure Host.Tidy (h : Host) : Prop where
  numbered : h.Numbered
  claimed : h.Claimed

namespace Host

variable {h : Host}

theorem Tidy.apply (ht : h.Tidy) (a : Action) : (h.apply a).Tidy :=
  have ha := apply_acts ht.claimed a
  ⟨ht.numbered.acts ha, ht.claimed.acts ht.numbered ha⟩

/-- **What holds at first and is kept by every action holds after every run.** -/
theorem Tidy.run_inv {P : Host → Prop} (ht : h.Tidy) (h0 : P h) (hstep : ∀ h a h', Acts h a h' → P h → P h')
    (as : List Action) : P (h.run as) := by
  induction as generalizing h with
  | nil => exact h0
  | cons a as ih => exact ih (ht.apply a) (hstep h a _ (apply_acts ht.claimed a) h0)

theorem Tidy.run (ht : h.Tidy) (as : List Action) : (h.run as).Tidy := by
  induction as generalizing h with
  | nil => exact ht
  | cons a as ih => exact ih (ht.apply a)

end Host

namespace Setup

theorem tidy (setup : Setup) : setup.host.Tidy := by
  cases setup with
  | link config | session config twin =>
    exact ⟨⟨.nil, fun _ hc => absurd hc List.not_mem_nil⟩, fun _ hw => absurd hw List.not_mem_nil⟩

theorem tidy_run (setup : Setup) (as : List Action) : (setup.host.run as).Tidy := setup.tidy.run as

theorem numbered_run (setup : Setup) (as : List Action) : (setup.host.run as).Numbered := (setup.tidy_run as).numbered

theorem claimed_run (setup : Setup) (as : List Action) : (setup.host.run as).Claimed := (setup.tidy_run as).claimed

/-- **Every action of a run is one of those that it can be.** -/
theorem acts_run (setup : Setup) (as : List Action) (a : Action) :
    Acts (setup.host.run as) a ((setup.host.run as).apply a) := Host.apply_acts (setup.claimed_run as) a

/-- **What is looked up is handed over, in every run.** On one thread no holder gives up in between. -/
theorem handOver_lookUp (setup : Setup) (as : List Action) {p : Packet} {w : Waiter} {h : Host}
    (hl : (setup.host.run as).lookUp p = some (w, h)) : (h.handOver w p).isSome := by
  obtain ⟨table, ready, -, he⟩ := (setup.claimed_run as).handOver_eq hl
  rw [he]
  rfl

end Setup

theorem Host.acts_ofLink (config : LinkConfig) (as : List Action) (a : Action) :
    Acts ((ofLink config).run as) a (((ofLink config).run as).apply a) := (Setup.link config).acts_run as a

theorem Host.acts_ofSession (config : SessionConfig) (twin : Twin) (as : List Action) (a : Action) :
    Acts ((ofSession config twin).run as) a (((ofSession config twin).run as).apply a) :=
  (Setup.session config twin).acts_run as a

end TwinLink
