import TwinLink.Proofs.Link.Standing

/-!
# Registrations and their tickets

Whoever opens a registration holds its ticket until it has the result or gives up. Of the link, registrations depend on
the table of waiters and on the deliveries alone.

* `Lot` : what has become of a registration, given the tickets held and the packets handed out;
* `Kept opened taken held l` : every registration ever opened has come to its lot, and nothing else is in the link;
* `TicketTurn` : what one action makes of tickets and registrations; `Kept.turn`.
-/

namespace TwinLink

namespace Link

variable {l l' : Link} {t : Nat}

theorem heldFor_of_desk (he : l'.desk = l.desk) : l'.heldFor t = l.heldFor t := by
  unfold heldFor
  rw [deliveries_of_desk he]

/-- A registration has its packet, and leaves the table. -/
def answer (l : Link) (w : Waiter) (p : Packet) : Link :=
  { l with
    table := { l.table with entries := l.table.entries.erase w }
    deliveries := l.deliveries ++ [(w.id, .ok p)] }

theorem heldFor_withdraw (l : Link) (id t : Nat) :
    (l.withdraw id).heldFor t = if t = id then [] else l.heldFor t := by
  unfold heldFor withdraw
  dsimp only
  rw [List.filter_filter]
  split_ifs with h
  · rw [List.filter_eq_nil_iff.mpr fun d _ => by simp [h]]
    rfl
  · congr 1
    refine List.filter_congr fun d _ => ?_
    by_cases hd : d.1 = t <;> simp [hd, h]

theorem heldFor_shut (l : Link) (reason : String) (t : Nat) :
    (l.shut reason).heldFor t = l.heldFor t ++ (l.openFor t).map fun _ => .error (.closed reason) := by
  show ((l.deliveries ++ l.table.entries.map _).filter _).map _ = _
  rw [List.filter_append, List.map_append, List.filter_map, List.map_map]
  rfl

theorem heldFor_answer (l : Link) (w : Waiter) (p : Packet) (t : Nat) :
    (l.answer w p).heldFor t = if w.id = t then l.heldFor t ++ [.ok p] else l.heldFor t := by
  show ((l.deliveries ++ [(w.id, Except.ok p)]).filter _).map _ = _
  rw [List.filter_append, List.map_append]
  split_ifs with h
  · simp [heldFor, h]
  · simp [heldFor, h]

end Link

/-! ## Lots -/

/-- What has become of a registration: it waits, or its packet is there, or the end of the link is, or its ticket has
been given up. -/
inductive Lot (l : Link) (held : List Ticket) (taken : List (Waiter × Packet)) (w : Waiter) : Prop
  | waiting (he : w ∈ l.table.entries) (hh : w.ticket ∈ held) (hr : l.heldFor w.id = []) (hn : ∀ p, (w, p) ∉ taken)
  | answered (p : Packet) (he : w ∉ l.table.entries) (hh : w.ticket ∈ held) (hr : l.heldFor w.id = [.ok p])
      (ht : (w, p) ∈ taken)
  | ended (reason : String) (he : w ∉ l.table.entries) (hh : w.ticket ∈ held)
      (hr : l.heldFor w.id = [.error (.closed reason)]) (hc : l.table.closed = some reason) (hn : ∀ p, (w, p) ∉ taken)
  | gone (he : w ∉ l.table.entries) (hh : w.ticket ∉ held) (hr : l.heldFor w.id = [])

/-- The registrations opened so far, oldest first, with the packets taken for them, account for the tickets held and for
all there is in the table and among the deliveries. -/
structure Kept (opened : List Waiter) (taken : List (Waiter × Packet)) (held : List Ticket) (l : Link) : Prop where
  ordered : opened.Pairwise fun v w => v.id < w.id
  fresh : ∀ w ∈ opened, w.id < l.table.nextId
  holders : ∀ t ∈ held, ∃ w ∈ opened, w.ticket = t
  distinct : held.Nodup
  entries : l.table.entries.Sublist opened
  accepted : ∀ x ∈ taken, x.1 ∈ opened ∧ x.1.accepts x.2
  once : (taken.map (·.1)).Nodup
  deliveries : ∀ d ∈ l.deliveries, ∃ w ∈ opened, w.id = d.1
  closed : l.table.closed.isSome → l.table.entries = []
  lots : ∀ w ∈ opened, Lot l held taken w

namespace Kept

variable {opened : List Waiter} {taken : List (Waiter × Packet)} {held held' : List Ticket} {l l' : Link}
  {v w : Waiter} {t : Ticket}

/-- A registration is known by its number. -/
theorem eq_of_id (hk : Kept opened taken held l) (hv : v ∈ opened) (hw : w ∈ opened) (he : v.id = w.id) : v = w :=
  List.inj_on_of_nodup_map (List.pairwise_map.mpr (hk.ordered.imp Nat.ne_of_lt)) hv hw he

theorem mem_opened (hk : Kept opened taken held l) (hw : w ∈ l.table.entries) : w ∈ opened := hk.entries.subset hw

/-- An entry waits. -/
theorem of_mem (hk : Kept opened taken held l) (hw : w ∈ l.table.entries) :
    w.ticket ∈ held ∧ l.heldFor w.id = [] ∧ ∀ p, (w, p) ∉ taken := by
  cases hk.lots w (hk.mem_opened hw) with
  | waiting _ hh hr hn => exact ⟨hh, hr, hn⟩
  | answered _ he | ended _ he | gone he => exact absurd hw he

theorem nodup (hk : Kept opened taken held l) : l.table.entries.Nodup := by
  refine List.Pairwise.imp ?_ (hk.ordered.sublist hk.entries)
  rintro v _ hlt rfl
  exact Nat.lt_irrefl _ hlt

theorem openFor_of_mem (hk : Kept opened taken held l) (hw : w ∈ l.table.entries) : l.openFor w.id = [w] := by
  have hcongr : l.openFor w.id = l.table.entries.filter (· == w) := by
    refine List.filter_congr fun v hv => ?_
    by_cases he : v = w
    · simp [he]
    · have hne : v.id ≠ w.id := fun hid => he (hk.eq_of_id (hk.mem_opened hv) (hk.mem_opened hw) hid)
      simp [he, hne]
  rw [hcongr, List.filter_beq, List.count_eq_one_of_mem hk.nodup hw]
  rfl

theorem openFor_of_notMem (hk : Kept opened taken held l) (hw : w ∈ opened) (he : w ∉ l.table.entries) :
    l.openFor w.id = [] := by
  refine List.filter_eq_nil_iff.mpr fun v hv hid => he ?_
  rwa [← hk.eq_of_id (hk.mem_opened hv) hw (by simpa using hid)]

/-- Tickets have numbers that were given out. -/
theorem lt_nextId (hk : Kept opened taken held l) (ht : t ∈ held) : t.id < l.table.nextId := by
  obtain ⟨w, hw, rfl⟩ := hk.holders t ht
  exact hk.fresh w hw

/-- What is delivered to whoever holds a ticket: nothing yet, or the packet taken, or the end of the link. -/
theorem delivery? (hk : Kept opened taken held l) (hw : w ∈ opened) (hh : w.ticket ∈ held) :
    (l.delivery? w.id = none ∧ w ∈ l.table.entries ∧ ∀ p, (w, p) ∉ taken) ∨
    (∃ p, l.delivery? w.id = some (.ok p) ∧ w ∉ l.table.entries ∧ (w, p) ∈ taken) ∨
    ∃ reason, l.delivery? w.id = some (.error (.closed reason)) ∧ w ∉ l.table.entries ∧
      l.table.closed = some reason ∧ ∀ p, (w, p) ∉ taken := by
  rw [Link.delivery?_eq]
  cases hk.lots w hw with
  | waiting he _ hr hn => exact .inl ⟨by rw [hr]; rfl, he, hn⟩
  | answered p he _ hr ht => exact .inr (.inl ⟨p, by rw [hr]; rfl, he, ht⟩)
  | ended reason he _ hr hc hn => exact .inr (.inr ⟨reason, by rw [hr]; rfl, he, hc, hn⟩)
  | gone _ hh' => exact absurd hh hh'

/-- One packet is taken for a registration. -/
theorem eq_of_taken (hk : Kept opened taken held l) {p q : Packet} (hp : (w, p) ∈ taken) (hq : (w, q) ∈ taken) :
    p = q := congrArg Prod.snd (List.inj_on_of_nodup_map hk.once hp hq rfl)

/-- The tickets that have brought nothing yet are those of the entries. -/
theorem tickets (hk : Kept opened taken held l) :
    (l.table.entries.map Waiter.ticket).Perm (held.filter fun t => (l.delivery? t.id).isNone) := by
  have hnodup : (l.table.entries.map Waiter.ticket).Nodup :=
    List.pairwise_map.mpr ((hk.ordered.sublist hk.entries).imp fun hlt he =>
      Nat.ne_of_lt hlt (congrArg Ticket.id he))
  refine (List.perm_ext_iff_of_nodup hnodup (hk.distinct.filter _)).mpr fun t => ?_
  rw [List.mem_map, List.mem_filter, Option.isNone_iff_eq_none]
  constructor
  · rintro ⟨w, hw, rfl⟩
    obtain ⟨hh, hr, -⟩ := hk.of_mem hw
    exact ⟨hh, (l.delivery?_eq w.id).trans (by rw [hr]; rfl)⟩
  · rintro ⟨hh, hd⟩
    obtain ⟨w, hw, rfl⟩ := hk.holders t hh
    rcases hk.delivery? hw hh with ⟨-, he, -⟩ | ⟨p, hd', -⟩ | ⟨reason, hd', -⟩
    · exact ⟨w, he, rfl⟩
    all_goals
      rw [show l.delivery? w.ticket.id = _ from hd'] at hd
      cases hd

/-- Of a registration that was given up nothing is left. -/
theorem gone (hk : Kept opened taken held l) (hw : w ∈ opened) (hn : w.ticket ∉ held) :
    (∀ v ∈ l.table.entries, v.id ≠ w.id) ∧ l.delivery? w.id = none := by
  cases hk.lots w hw with
  | waiting _ hh | answered _ _ hh | ended _ _ hh => exact absurd hh hn
  | gone he _ hr =>
    refine ⟨fun v hv hid => he ?_, by rw [Link.delivery?_eq, hr]; rfl⟩
    rwa [← hk.eq_of_id (hk.mem_opened hv) hw hid]

/-- Only the table and the deliveries matter, and which tickets are held. -/
theorem congr (hk : Kept opened taken held l) (he : l'.desk = l.desk) (hp : held.Perm held') :
    Kept opened taken held' l' := by
  have ht := Link.table_of_desk he
  refine ⟨hk.ordered, ht ▸ hk.fresh, fun t h => hk.holders t (hp.mem_iff.mpr h), hp.nodup_iff.mp hk.distinct,
    ht ▸ hk.entries, hk.accepted, hk.once, Link.deliveries_of_desk he ▸ hk.deliveries, ht ▸ hk.closed, fun w hw => ?_⟩
  have hr := Link.heldFor_of_desk he (t := w.id)
  cases hk.lots w hw with
  | waiting he hh hr' hn => exact .waiting (ht ▸ he) (hp.mem_iff.mp hh) (hr.trans hr') hn
  | answered p he hh hr' hta => exact .answered p (ht ▸ he) (hp.mem_iff.mp hh) (hr.trans hr') hta
  | ended reason he hh hr' hc hn => exact .ended reason (ht ▸ he) (hp.mem_iff.mp hh) (hr.trans hr') (ht ▸ hc) hn
  | gone he hh hr' => exact .gone (ht ▸ he) (fun h => hh (hp.mem_iff.mpr h)) (hr.trans hr')

/-- A ticket is given up. -/
theorem drop (hk : Kept opened taken held l) (ht : t ∈ held) :
    Kept opened taken (held.erase t) (l.withdraw t.id) := by
  obtain ⟨u, hu, rfl⟩ := hk.holders t ht
  -- the number belongs to this registration alone
  have hne : ∀ w ∈ opened, w.ticket ≠ u.ticket → w.id ≠ u.id := fun w hw hne hid =>
    hne (by rw [hk.eq_of_id hw hu hid])
  have hentries : ∀ w, w ∈ (l.withdraw u.ticket.id).table.entries ↔ w ∈ l.table.entries ∧ w.id ≠ u.id := fun w => by
    simp [Link.withdraw, WaitTable.cancel, Waiter.ticket]
  have hresults : ∀ t, (l.withdraw u.ticket.id).heldFor t = if t = u.id then [] else l.heldFor t :=
    l.heldFor_withdraw u.id
  refine ⟨hk.ordered, hk.fresh, fun t h => hk.holders t (List.mem_of_mem_erase h), hk.distinct.erase _,
    List.filter_sublist.trans hk.entries, hk.accepted, hk.once,
    fun d hd => hk.deliveries d (List.mem_filter.mp hd).1, fun hc => ?_, fun w hw => ?_⟩
  · show l.table.entries.filter _ = []
    rw [hk.closed hc]
    rfl
  · by_cases hwu : w.ticket = u.ticket
    · have hid : w.id = u.id := congrArg Ticket.id hwu
      exact .gone (fun h => ((hentries w).mp h).2 hid) (hwu ▸ hk.distinct.not_mem_erase) (by rw [hresults, if_pos hid])
    · have hid := hne w hw hwu
      have hh : w.ticket ∈ held.erase u.ticket ↔ w.ticket ∈ held := List.mem_erase_of_ne hwu
      have hr : (l.withdraw u.ticket.id).heldFor w.id = l.heldFor w.id := by rw [hresults, if_neg hid]
      have he : w ∉ l.table.entries → w ∉ (l.withdraw u.ticket.id).table.entries := fun he h => he ((hentries w).mp h).1
      cases hk.lots w hw with
      | waiting he' hh' hr' hn => exact .waiting ((hentries w).mpr ⟨he', hid⟩) (hh.mpr hh') (hr.trans hr') hn
      | answered p he' hh' hr' hta => exact .answered p (he he') (hh.mpr hh') (hr.trans hr') hta
      | ended reason he' hh' hr' hc hn => exact .ended reason (he he') (hh.mpr hh') (hr.trans hr') hc hn
      | gone he' hh' hr' => exact .gone (he he') (fun h => hh' (hh.mp h)) (hr.trans hr')

/-- A registration is opened, and its ticket held. -/
theorem enroll (hk : Kept opened taken held l) (type : UInt8) (matcher : Matcher) (ho : l.table.closed = none) :
    Kept (opened ++ [⟨l.table.nextId, type, matcher⟩]) taken (held ++ [⟨l.table.nextId, type⟩])
      (l.enroll type matcher) := by
  set new : Waiter := ⟨l.table.nextId, type, matcher⟩ with hnew
  have hid : ∀ w ∈ opened, w.id ≠ new.id := fun w hw => Nat.ne_of_lt (hk.fresh w hw)
  have hunknown : new ∉ opened := fun h => hid new h rfl
  have hunheld : new.ticket ∉ held := fun h => by
    obtain ⟨w, hw, he⟩ := hk.holders _ h
    exact hid w hw (congrArg Ticket.id he)
  refine ⟨?_, ?_, ?_, ?_, hk.entries.append (List.Sublist.refl _), fun x hx => ?_, hk.once, ?_, ?_, ?_⟩
  · refine List.pairwise_append.mpr ⟨hk.ordered, List.pairwise_singleton _ _, fun v hv w hw => ?_⟩
    obtain rfl := List.mem_singleton.mp hw
    exact hk.fresh v hv
  · intro w hw
    rcases List.mem_append.mp hw with hw | hw
    · exact Nat.lt_succ_of_lt (hk.fresh w hw)
    · obtain rfl := List.mem_singleton.mp hw
      exact Nat.lt_succ_self _
  · intro t ht
    rcases List.mem_append.mp ht with ht | ht
    · obtain ⟨w, hw, he⟩ := hk.holders t ht
      exact ⟨w, List.mem_append_left _ hw, he⟩
    · obtain rfl := List.mem_singleton.mp ht
      exact ⟨new, List.mem_append_right _ (List.mem_singleton.mpr rfl), rfl⟩
  · refine List.nodup_append.mpr ⟨hk.distinct, List.nodup_singleton _, fun t ht u hu => ?_⟩
    obtain rfl := List.mem_singleton.mp hu
    rintro rfl
    exact hunheld ht
  · exact ⟨List.mem_append_left _ (hk.accepted x hx).1, (hk.accepted x hx).2⟩
  · intro d hd
    obtain ⟨w, hw, he⟩ := hk.deliveries d hd
    exact ⟨w, List.mem_append_left _ hw, he⟩
  · intro hc
    have hc : l.table.closed.isSome := hc
    rw [ho] at hc
    cases hc
  · intro w hw
    have hr : ∀ t, (l.enroll type matcher).heldFor t = l.heldFor t := fun _ => rfl
    rcases List.mem_append.mp hw with hw | hw
    · have hne : w ≠ new := fun he => hunknown (he ▸ hw)
      have hen : w ∈ (l.enroll type matcher).table.entries ↔ w ∈ l.table.entries := by
        show w ∈ l.table.entries ++ [new] ↔ _
        simp [hne]
      have hti : w.ticket ∈ held ++ [new.ticket] ↔ w.ticket ∈ held := by
        have : w.ticket ≠ new.ticket := fun he => hid w hw (congrArg Ticket.id he)
        simp [this]
      cases hk.lots w hw with
      | waiting he hh hr' hn => exact .waiting (hen.mpr he) (hti.mpr hh) hr' hn
      | answered p he hh hr' hta => exact .answered p (fun h => he (hen.mp h)) (hti.mpr hh) hr' hta
      | ended reason he hh hr' hc hn => exact .ended reason (fun h => he (hen.mp h)) (hti.mpr hh) hr' hc hn
      | gone he hh hr' => exact .gone (fun h => he (hen.mp h)) (fun h => hh (hti.mp h)) hr'
    · obtain rfl := List.mem_singleton.mp hw
      refine .waiting (List.mem_append_right _ (List.mem_singleton.mpr rfl))
        (List.mem_append_right _ (List.mem_singleton.mpr rfl)) ?_ fun p hp => hunknown (hk.accepted _ hp).1
      show (l.deliveries.filter _).map _ = []
      rw [List.filter_eq_nil_iff.mpr fun d hd hdi => ?_]
      · rfl
      · obtain ⟨w, hw, he⟩ := hk.deliveries d hd
        exact hid w hw (he.trans (by simpa using hdi))

/-- The table ends: the end of the link is delivered to whoever waits. -/
theorem shut (hk : Kept opened taken held l) (reason : String) : Kept opened taken held (l.shut reason) := by
  refine ⟨hk.ordered, hk.fresh, hk.holders, hk.distinct, List.nil_sublist _, hk.accepted, hk.once, ?_, fun _ => rfl,
    fun w hw => ?_⟩
  · intro d hd
    rcases List.mem_append.mp hd with hd | hd
    · exact hk.deliveries d hd
    · obtain ⟨w, hw, rfl⟩ := List.mem_map.mp hd
      exact ⟨w, hk.mem_opened hw, rfl⟩
  · have hr := l.heldFor_shut reason w.id
    by_cases he : w ∈ l.table.entries
    · -- the table was open, or nothing would be in it
      have ho : l.table.closed = none := by
        by_contra hc
        rw [hk.closed (Option.isSome_iff_ne_none.mpr hc)] at he
        cases he
      rw [hk.openFor_of_mem he] at hr
      cases hk.lots w hw with
      | waiting _ hh hr' hn =>
        rw [hr'] at hr
        refine .ended reason nofun hh hr ?_ hn
        show some (l.table.closed.getD reason) = _
        rw [ho]
        rfl
      | answered p he' | ended _ he' | gone he' => exact absurd he he'
    · rw [hk.openFor_of_notMem hw he, List.map_nil, List.append_nil] at hr
      cases hk.lots w hw with
      | waiting he' => exact absurd he' he
      | answered p _ hh hr' hta => exact .answered p nofun hh (hr.trans hr') hta
      | ended reason' _ hh hr' hc hn =>
        refine .ended reason' nofun hh (hr.trans hr') ?_ hn
        show some (l.table.closed.getD reason) = _
        rw [hc]
        rfl
      | gone _ hh hr' => exact .gone nofun hh (hr.trans hr')

/-- A packet is taken for a registration that accepts it. -/
theorem answer (hk : Kept opened taken held l) {p : Packet} (hw : w ∈ l.table.entries) (hp : w.accepts p) :
    Kept opened (taken ++ [(w, p)]) held (l.answer w p) := by
  have hwo := hk.mem_opened hw
  have hentries : ∀ v, v ∈ (l.answer w p).table.entries ↔ v ∈ l.table.entries ∧ v ≠ w := fun v => by
    show v ∈ l.table.entries.erase w ↔ _
    rw [hk.nodup.mem_erase_iff, and_comm]
  obtain ⟨hh, hr, hn⟩ := hk.of_mem hw
  refine ⟨hk.ordered, hk.fresh, hk.holders, hk.distinct, List.erase_sublist.trans hk.entries, ?_, ?_, ?_, ?_, ?_⟩
  · intro x hx
    rcases List.mem_append.mp hx with hx | hx
    · exact hk.accepted x hx
    · obtain rfl := List.mem_singleton.mp hx
      exact ⟨hwo, hp⟩
  · rw [List.map_append]
    refine List.nodup_append.mpr ⟨hk.once, List.nodup_singleton _, fun v hv u hu => ?_⟩
    obtain ⟨⟨v, q⟩, hx, rfl⟩ := List.mem_map.mp hv
    obtain rfl : u = w := by simpa using hu
    rintro rfl
    exact hn q hx
  · intro d hd
    rcases List.mem_append.mp hd with hd | hd
    · exact hk.deliveries d hd
    · obtain rfl := List.mem_singleton.mp hd
      exact ⟨w, hwo, rfl⟩
  · intro hc
    rw [hk.closed hc] at hw
    cases hw
  · intro v hv
    by_cases hvw : v = w
    · subst hvw
      refine .answered p (fun h => ((hentries v).mp h).2 rfl) hh ?_
        (List.mem_append_right _ (List.mem_singleton.mpr rfl))
      rw [Link.heldFor_answer, if_pos rfl, hr]
      rfl
    · have hid : w.id ≠ v.id := fun hid => hvw (hk.eq_of_id hv hwo hid.symm)
      have hr' : (l.answer w p).heldFor v.id = l.heldFor v.id := by rw [Link.heldFor_answer, if_neg hid]
      have hn' : (∀ q, (v, q) ∉ taken) → ∀ q, (v, q) ∉ taken ++ [(w, p)] := fun hn q hq => by
        rcases List.mem_append.mp hq with hq | hq
        · exact hn q hq
        · exact hvw (congrArg Prod.fst (List.mem_singleton.mp hq))
      have he' : v ∉ l.table.entries → v ∉ (l.answer w p).table.entries := fun he h => he ((hentries v).mp h).1
      cases hk.lots v hv with
      | waiting he hh hr hn => exact .waiting ((hentries v).mpr ⟨he, hvw⟩) hh (hr'.trans hr) (hn' hn)
      | answered q he hh hr hta => exact .answered q (he' he) hh (hr'.trans hr) (List.mem_append_left _ hta)
      | ended reason he hh hr hc hn => exact .ended reason (he' he) hh (hr'.trans hr) hc (hn' hn)
      | gone he hh hr => exact .gone (he' he) hh (hr'.trans hr)

end Kept

/-! ## Turns -/

/-- The tickets without one that is given up. -/
def heldWithout (held : List Ticket) (t : Option Ticket) : List Ticket := t.elim held held.erase

/-- What an action makes of tickets and registrations, apart from a ticket that is given up: nothing, or one
registration is opened, or the table ends, or one registration gets its packet. -/
inductive TicketTurn (held : List Ticket) (l : Link) :
    List Waiter → Option (Waiter × Packet) → List Ticket → Link → Prop
  | stays {l' : Link} (he : l'.desk = l.desk) : TicketTurn held l [] none held l'
  | enrolls (type : UInt8) (matcher : Matcher) (ho : l.table.closed = none) {l' : Link}
      (he : l'.desk = (l.enroll type matcher).desk) :
      TicketTurn held l [⟨l.table.nextId, type, matcher⟩] none (held ++ [⟨l.table.nextId, type⟩]) l'
  | shuts (reason : String) {l' : Link} (he : l'.desk = (l.shut reason).desk) : TicketTurn held l [] none held l'
  | answers {w : Waiter} {p : Packet} (hw : w ∈ l.table.entries) (hp : w.accepts p) {l' : Link}
      (he : l'.desk = (l.answer w p).desk) : TicketTurn held l [] (some (w, p)) held l'

namespace Kept

variable {opened o : List Waiter} {taken : List (Waiter × Packet)} {x : Option (Waiter × Packet)}
  {held held' : List Ticket} {l l' : Link} {w : Waiter} {t : Option Ticket}

theorem giveUp (hk : Kept opened taken held l) (ht : ∀ u ∈ t, u ∈ held) :
    Kept opened taken (heldWithout held t) (l.giveUp t) := by
  cases t with
  | none => exact hk
  | some u => exact hk.drop (ht u rfl)

/-- **The accounts are kept by every turn.** -/
theorem turn (hk : Kept opened taken held l) (ht : TicketTurn held l o x held' l') :
    Kept (opened ++ o) (taken ++ x.toList) held' l' := by
  cases ht with
  | stays he => simpa using hk.congr he (.refl _)
  | enrolls type matcher ho he => simpa using (hk.enroll type matcher ho).congr he (.refl _)
  | shuts reason he => simpa using (hk.shut reason).congr he (.refl _)
  | answers hw hp he => simpa using (hk.answer hw hp).congr he (.refl _)

/-- Numbers are given out in order. -/
theorem news (hk : Kept opened taken held l) (ht : TicketTurn held l o x held' l') :
    l'.table.entries.filter (fun w => l.table.nextId ≤ w.id) = o := by
  have hold : ∀ {ws : List Waiter}, ws.Sublist l.table.entries → ws.filter (fun w => l.table.nextId ≤ w.id) = [] :=
    fun hs => List.filter_eq_nil_iff.mpr fun w hw => by
      have := hk.fresh w (hk.mem_opened (hs.subset hw))
      simpa using this
  cases ht with
  | stays he =>
    rw [Link.table_of_desk he]
    exact hold (List.Sublist.refl _)
  | enrolls type matcher ho he =>
    rw [Link.table_of_desk he]
    show (l.table.entries ++ [_]).filter _ = _
    rw [List.filter_append, hold (List.Sublist.refl _)]
    simp
  | shuts reason he =>
    rw [Link.table_of_desk he]
    rfl
  | answers hw hp he =>
    rw [Link.table_of_desk he]
    exact hold List.erase_sublist

end Kept

namespace TicketTurn

variable {opened o : List Waiter} {taken : List (Waiter × Packet)} {x : Option (Waiter × Packet)}
  {held held' : List Ticket} {l l' : Link} {w : Waiter}

/-- A closed table stays closed, for the same reason. -/
theorem closed (ht : TicketTurn held l o x held' l') {reason : String} (hc : l.table.closed = some reason) :
    l'.table.closed = some reason := by
  cases ht with
  | stays he => rw [Link.table_of_desk he, hc]
  | enrolls type matcher ho he => rw [ho] at hc; cases hc
  | shuts reason' he =>
    rw [Link.table_of_desk he]
    show some (l.table.closed.getD reason') = _
    rw [hc]
    rfl
  | answers hw hp he => rw [Link.table_of_desk he]; exact hc

/-- The table does not end with a packet. -/
theorem closed_of_answer {x : Waiter × Packet} (ht : TicketTurn held l o (some x) held' l') :
    l'.table.closed = l.table.closed := by
  cases ht with
  | answers hw hp he => rw [Link.table_of_desk he]; rfl

/-- New tickets have new numbers. -/
theorem old (ht : TicketTurn held l o x held' l') {t : Ticket} (hh : t ∈ held') (hid : t.id < l.table.nextId) :
    t ∈ held := by
  cases ht with
  | enrolls type matcher ho he =>
    rcases List.mem_append.mp hh with hh | hh
    · exact hh
    · obtain rfl := List.mem_singleton.mp hh
      exact absurd hid (Nat.lt_irrefl _)
  | _ => exact hh

/-- No ticket is lost. -/
theorem keeps (ht : TicketTurn held l o x held' l') {t : Ticket} (hh : t ∈ held) : t ∈ held' := by
  cases ht with
  | enrolls type matcher ho he => exact List.mem_append_left _ hh
  | _ => exact hh

theorem nextId (ht : TicketTurn held l o x held' l') : l.table.nextId ≤ l'.table.nextId := by
  cases ht with
  | enrolls type matcher ho he => rw [Link.table_of_desk he]; exact Nat.le_succ _
  | stays he | shuts reason he | answers hw hp he =>
    exact Nat.le_of_eq (congrArg WaitTable.nextId (Link.table_of_desk he)).symm

/-- What was delivered stays until its ticket is given up. -/
theorem results (ht : TicketTurn held l o x held' l') (hk : Kept opened taken held l) (hw : w ∈ opened)
    {r : Except LinkError Packet} (hr : l.heldFor w.id = [r]) : l'.heldFor w.id = [r] := by
  have hout : w ∉ l.table.entries := fun he => by
    cases hk.lots w hw with
    | waiting _ _ hr' => rw [hr'] at hr; cases hr
    | answered _ he' | ended _ he' | gone he' => exact he' he
  cases ht with
  | stays he => rw [Link.heldFor_of_desk he, hr]
  | enrolls type matcher ho he => rw [Link.heldFor_of_desk he]; exact hr
  | shuts reason he =>
    rw [Link.heldFor_of_desk he, Link.heldFor_shut, hk.openFor_of_notMem hw hout, hr]
    rfl
  | @answers v p hv hp l' he =>
    have hne : v.id ≠ w.id := fun hid => hout (hk.eq_of_id (hk.mem_opened hv) hw hid ▸ hv)
    rw [Link.heldFor_of_desk he, Link.heldFor_answer, if_neg hne, hr]

/-- An entry leaves the table only with its packet or when the table ends. -/
theorem leaves (ht : TicketTurn held l o x held' l') (hw : w ∈ l.table.entries) :
    w ∈ l'.table.entries ∨ (∃ p, x = some (w, p)) ∨ l'.table.closed.isSome := by
  cases ht with
  | stays he => rw [Link.table_of_desk he]; exact .inl hw
  | enrolls type matcher ho he =>
    rw [Link.table_of_desk he]
    exact .inl (List.mem_append_left _ hw)
  | shuts reason he =>
    rw [Link.table_of_desk he]
    exact .inr (.inr rfl)
  | @answers v p hv hp l' he =>
    by_cases hvw : w = v
    · exact .inr (.inl ⟨p, by rw [hvw]⟩)
    · rw [Link.table_of_desk he]
      exact .inl ((List.mem_erase_of_ne hvw).mpr hw)

end TicketTurn
end TwinLink
