import TwinLink.Proofs.Link.Mail

/-!
# Writing

The loop takes the frames in the order of the queue, writes one at a time, and reports each to the call that waits for
it. When it ends, it reports to everyone who waits.

* `Mailed.take`, `Mailed.write`, `Mailed.complete`, `Mailed.stop` : what the loop does to sends; `Mailed.loop`;
* `Mailed.acts`, `Setup.mailed_run` : the accounts of sends are kept by every run.
-/

namespace TwinLink

namespace Mailed

variable {b : Outbox} {current waiting : List Send} {h h' : Host} {c : Call} {s : Send}

/-! ## Moves of the loop -/

section Loop

variable {t : LoopTurn} (ht : h.LoopTurns t h')

include ht in
/-- The loop writes nothing and neither begins nor ends a frame. -/
theorem quiet (hm : Mailed b current waiting h) (hs : h.SameStream h') (hc : t.link.commands = h.link.commands)
    (hr : t.link.receipts = h.link.receipts) : Mailed b current waiting h' := by
  refine hm.keep hs (Nat.le_of_eq ht.made.symm) ⟨[], by rw [ht.link, hc, List.append_nil], nofun⟩
    (fun x hx => .inl (ht.calls ▸ hx)) (fun r hmem => ?_) fun x _ _ => ?_
  · rw [ht.link, hr] at hmem
    rw [ht.calls]
    exact hm.receipts r hmem
  · rw [ht.link, Link.receipt?, hr]
    rfl

/-- While the loop listens, every frame that was taken up is written. -/
theorem between (hm : Mailed b current waiting h) (hl : ∀ id rest, h.link.loop ≠ .writing id rest)
    (he : h.link.loop.ended = false) : current = [] ∧ h.wire.outbound = b.written.flatMap Send.frame := by
  cases hm.carries with
  | between hc ho _ => exact ⟨hc, ho⟩
  | within s part rest hc ho hp hloop =>
    rcases hloop with hloop | hloop
    · exact absurd hloop (hl _ _)
    · rw [he] at hloop
      cases hloop

/-- While it writes, it is the frame of one send. -/
theorem within (hm : Mailed b current waiting h) {caller : Nat} {rest : Bytes}
    (hl : h.link.loop = .writing caller rest) : ∃ s part, current = [s] ∧ s.caller = caller ∧
      h.wire.outbound = b.written.flatMap Send.frame ++ part ∧ part ++ rest = s.frame := by
  cases hm.carries with
  | between hc ho hno => exact absurd hl (hno _ _)
  | within s part rest' hc ho hp hloop =>
    rw [hl] at hloop
    obtain hloop := hloop.resolve_right nofun
    cases hloop
    exact ⟨s, part, hc, rfl, ho, hp⟩

include ht in
/-- The loop takes up a frame. -/
theorem take (hm : Mailed b current waiting h) (hl : h.link.loop = .listening) {caller : Nat} {frame : Bytes}
    {commands : Channel LinkCommand} {woken : Option Actor}
    (hc : h.link.commands.take? = some (.write caller frame, commands, woken))
    (hlink : t.link = { h.link with commands := commands, loop := .writing caller frame }) (hwire : t.wire = h.wire) :
    ∃ s rest, Mailed (b.record (.taken caller)) [s] rest h' := by
  have hrun : h.link.loop.ended = false := by rw [hl]; rfl
  obtain ⟨rfl, hout⟩ := hm.between (by rw [hl]; exact nofun) hrun
  obtain ⟨hqueue, hclosed⟩ := Channel.take_eq_some hc
  obtain ⟨hopen, hwaits⟩ := hm.running hrun
  -- the frame at the head of the queue is that of the first send that waits
  rw [hqueue, List.filter_cons_of_pos rfl] at hwaits
  obtain ⟨s, rest, rfl, hs, hrest⟩ := List.map_eq_cons_iff.mp hwaits.symm
  obtain ⟨rfl, rfl⟩ : s.caller = caller ∧ s.frame = frame := by
    cases hs
    exact ⟨rfl, rfl⟩
  have hlast := (hm.pending hrun s List.mem_cons_self).1
  have hrecord : b.record (.taken s.caller) = { b with taken := b.taken ++ [s] } := by
    rw [Outbox.record, hlast]
    rfl
  have hlink' := ht.link.trans hlink
  have hkept : ∀ {s' : Send} {r : Except LinkError Unit}, b.Outcome h.link.loop.ended s' r →
      { b with taken := b.taken ++ [s] }.Outcome h'.link.loop.ended s' r := by
    intro s' r ho
    exact ho.mono (List.Subset.refl _) fun he => by rw [hrun] at he; cases he
  refine ⟨s, rest, ?_⟩
  rw [hrecord]
  refine { hm with
    callers := by rw [ht.made]; exact hm.callers
    queued := by rw [hm.queued, List.append_assoc]; rfl
    taken := by rw [hm.taken, List.append_nil]
    sent := by rw [hlink']; exact hm.sent
    carries := .within s [] s.frame rfl (by rw [ht.wire, hwire, hout, List.append_nil]) rfl (.inl (by rw [hlink']))
    running := fun _ => by rw [hlink']; exact ⟨hclosed.trans hopen, hrest.symm⟩
    ended := fun he => by rw [hlink'] at he; cases he
    pending := fun _ => by rw [ht.calls]; exact hm.pending hrun
    entering := by rw [ht.calls]; exact hm.entering
    writing := fun x hx hw => ?_
    receipts := by rw [hlink', ht.calls]; exact hm.receipts
    returned := fun x hx => (hm.returned x hx).imp_right hkept }
  rw [ht.calls] at hx
  obtain ⟨s', hlast', hq, hret, hstage⟩ := hm.writing x hx hw
  refine ⟨s', hlast', hq, hret, ?_⟩
  rw [hlink']
  rw [hlink'] at hkept
  rcases hstage with ⟨-, hr, hs'⟩ | ⟨r, hr, ho⟩
  · exact .inl ⟨rfl, hr, hs'⟩
  · exact .inr ⟨r, hr, hkept ho⟩

include ht in
/-- The device takes a part of the frame. -/
theorem write (hm : Mailed b current waiting h) {caller : Nat} {rest : Bytes} (hl : h.link.loop = .writing caller rest)
    {n : Nat} (hlink : t.link = { h.link with loop := .writing caller (rest.drop n) })
    (hwire : t.wire.outbound = h.wire.outbound ++ rest.take n) : Mailed b current waiting h' := by
  have hrun : h.link.loop.ended = false := by rw [hl]; rfl
  have hlink' := ht.link.trans hlink
  have hended : h'.link.loop.ended = h.link.loop.ended := by
    rw [hrun, hlink']
    rfl
  obtain ⟨s, part, hc, rfl, hout, hp⟩ := hm.within hl
  refine { hm with
    callers := by rw [ht.made]; exact hm.callers
    sent := by rw [hlink']; exact hm.sent
    carries := .within s (part ++ rest.take n) (rest.drop n) hc ?_ ?_ (.inl (by rw [hlink']))
    running := fun _ => by rw [hlink']; exact hm.running hrun
    ended := fun he => by rw [hlink'] at he; cases he
    pending := fun _ => by rw [ht.calls]; exact hm.pending hrun
    entering := by rw [ht.calls]; exact hm.entering
    writing := ?_
    receipts := by rw [hlink', ht.calls]; exact hm.receipts
    returned := by rw [hended]; exact hm.returned }
  · rw [ht.wire, hwire, hout, List.append_assoc]
  · rw [List.append_assoc, List.take_append_drop, hp]
  · rw [hended, ht.calls, hlink']
    exact hm.writing

include ht in
/-- The loop has written a frame. -/
theorem complete (hm : Mailed b current waiting h) (hn : h.Numbered) {caller : Nat}
    (hl : h.link.loop = .writing caller [])
    (hlink : t.link = { h.link with
      loop := .listening
      receipts := h.link.receipts ++ Host.receiptFor h.calls caller (.ok ())
      metrics := { h.link.metrics with framesSent := h.link.metrics.framesSent + 1 } }) (hwire : t.wire = h.wire) :
    Mailed (b.record (.written caller)) [] waiting h' := by
  have hrun : h.link.loop.ended = false := by rw [hl]; rfl
  have hlink' := ht.link.trans hlink
  obtain ⟨s, part, rfl, rfl, hout, hp⟩ := hm.within hl
  rw [List.append_nil] at hp
  have hlast := (hm.pending hrun s List.mem_cons_self).1
  have hrecord : b.record (.written s.caller) = { b with written := b.written ++ [s] } := by
    rw [Outbox.record, hlast]
    rfl
  have hkept : ∀ {s' : Send} {r : Except LinkError Unit}, b.Outcome h.link.loop.ended s' r →
      { b with written := b.written ++ [s] }.Outcome h'.link.loop.ended s' r := by
    intro s' r ho
    exact ho.mono (List.subset_append_left _ _) fun he => by rw [hrun] at he; cases he
  rw [hrecord]
  refine { hm with
    callers := by rw [ht.made]; exact hm.callers
    taken := by rw [hm.taken, List.append_nil]
    sent := by rw [hlink', List.length_append, List.length_singleton, ← hm.sent]
    carries := .between rfl ?_ fun id rest hl' => by rw [hlink'] at hl'; cases hl'
    running := fun _ => by rw [hlink']; exact hm.running hrun
    ended := fun he => by rw [hlink'] at he; cases he
    pending := fun _ x hx => by rw [ht.calls]; exact hm.pending hrun x (List.mem_cons_of_mem _ hx)
    entering := by rw [ht.calls]; exact hm.entering
    writing := fun x hx hw => ?_
    receipts := fun r hr => ?_
    returned := fun x hx => (hm.returned x hx).imp_right hkept }
  · rw [ht.wire, hwire, hout, hp, List.flatMap_append, List.flatMap_singleton]
  · rw [ht.calls] at hx
    obtain ⟨s', hlast', hq, hret, hstage⟩ := hm.writing x hx hw
    have hid := Outbox.last_caller hlast'
    refine ⟨s', hlast', hq, hret, ?_⟩
    have hreceipt : h'.link.receipt? x.id =
        (h.link.receipt? x.id).or ((Host.receiptFor h.calls s.caller (.ok ())).lookup x.id) := by
      rw [hlink']
      exact List.lookup_append
    rcases hstage with ⟨-, hr, hs'⟩ | ⟨r, hr, ho⟩
    · rw [hreceipt, hr, Option.none_or]
      by_cases he : s' = s
      · subst he
        rw [hid, Host.receiptFor_of_writes (hn.call?_of_mem hx) hw, List.lookup_cons_self]
        exact .inr ⟨_, rfl, .written List.mem_concat_self⟩
      · -- the report goes to another call
        have hne : s.caller ≠ x.id := by
          intro hsx
          rw [hsx, hlast'] at hlast
          exact he (Option.some.inj hlast)
        rw [Host.receiptFor_lookup_ne hne]
        exact .inl ⟨by rw [hlink']; rfl, rfl, (List.mem_cons.mp hs').resolve_left he⟩
    · rw [hreceipt, hr, Option.some_or]
      exact .inr ⟨r, rfl, hkept ho⟩
  · rw [hlink'] at hr
    rw [ht.calls]
    rcases List.mem_append.mp hr with hr | hr
    · exact hm.receipts r hr
    · obtain ⟨rfl, hc⟩ := Host.mem_receiptFor hr
      exact hc

include ht in
/-- The loop ends. -/
theorem stop (hm : Mailed b current waiting h) (hn : h.Numbered) (hrun : h.link.loop.ended = false) {l : Link}
    {reason : String} {own : List (Nat × Except LinkError Unit)}
    (hlink : t.link = l.stopped reason (Host.refusals h.calls reason l.commands.queue)) (hwire : t.wire = h.wire)
    (hsent : l.metrics.framesSent = h.link.metrics.framesSent)
    (hq : l.commands.queue.filter LinkCommand.writes = h.link.commands.queue.filter LinkCommand.writes)
    (hr : l.receipts = h.link.receipts ++ own)
    (hown : own = [] ∧ current = [] ∨
      ∃ s text, current = [s] ∧ own = Host.receiptFor h.calls s.caller (.error (.io text))) :
    Mailed b current waiting h' := by
  have hlink' := ht.link.trans hlink
  have hended : h'.link.loop.ended = true := by
    rw [hlink']
    rfl
  have hkept : ∀ {s' : Send} {r : Except LinkError Unit}, b.Outcome h.link.loop.ended s' r →
      b.Outcome h'.link.loop.ended s' r := by
    intro s' r ho
    exact ho.mono (List.Subset.refl _) fun he => by rw [hrun] at he; cases he
  refine { hm with
    callers := by rw [ht.made]; exact hm.callers
    sent := by rw [hlink']; exact hsent.trans hm.sent
    carries := ?_
    running := fun he => by rw [hended] at he; cases he
    ended := fun _ => by rw [hlink']; exact ⟨rfl, rfl⟩
    pending := fun he => by rw [hended] at he; cases he
    entering := by rw [ht.calls]; exact hm.entering
    writing := fun x hx hw => ?_
    receipts := fun r hmem => ?_
    returned := fun x hx => (hm.returned x hx).imp_right hkept }
  · cases hm.carries with
    | between hc ho hl => exact .between hc (by rw [ht.wire, hwire, ho]) (by rw [hlink']; exact nofun)
    | within s part rest hc ho hp hl => exact .within s part rest hc (by rw [ht.wire, hwire, ho]) hp (.inr hended)
  · rw [ht.calls] at hx
    obtain ⟨s, hlast, hqueued, hret, hstage⟩ := hm.writing x hx hw
    have hid := Outbox.last_caller hlast
    have hreceipt : h'.link.receipt? x.id = ((h.link.receipt? x.id).or (own.lookup x.id)).or
        ((Host.refusals h.calls reason l.commands.queue).lookup x.id) := by
      rw [hlink']
      show (l.receipts ++ _).lookup x.id = _
      rw [hr, List.lookup_append, List.lookup_append]
      rfl
    refine ⟨s, hlast, hqueued, hret, .inr ?_⟩
    rcases hstage with ⟨-, hnone, hs⟩ | ⟨r, hsome, ho⟩
    · rw [hreceipt, hnone, Option.none_or]
      rcases List.mem_append.mp hs with hcur | hwait
      · -- the write of its frame has failed
        obtain ⟨s', text, rfl, rfl⟩ := hown.resolve_left fun ⟨_, hno⟩ => by rw [hno] at hcur; cases hcur
        obtain rfl := List.mem_singleton.mp hcur
        rw [hid, Host.receiptFor_of_writes (hn.call?_of_mem hx) hw, List.lookup_cons_self, Option.some_or]
        refine ⟨_, rfl, .failed text hended ?_ (hm.unwritten hs)⟩
        rw [hm.taken]
        exact List.mem_append_right _ hcur
      · -- its frame is left in the queue
        have hnot : s ∉ b.taken := by
          have hd := hm.distinct
          rw [hm.queued] at hd
          exact fun ht => (List.nodup_append.mp hd).2.2 s ht s hwait rfl
        have hother : own.lookup x.id = none := by
          rcases hown with ⟨rfl, -⟩ | ⟨s', text, rfl, rfl⟩
          · rfl
          · refine Host.receiptFor_lookup_ne fun he => hnot ?_
            have hlast' := (hm.pending hrun s' List.mem_cons_self).1
            rw [he, hlast] at hlast'
            rw [hm.taken, Option.some.inj hlast']
            exact List.mem_concat_self
        have hin : .write x.id s.frame ∈ l.commands.queue := by
          have hmem : s.command ∈ waiting.map Send.command := List.mem_map_of_mem hwait
          rw [← (hm.running hrun).2, ← hq, Send.command, hid] at hmem
          exact (List.mem_filter.mp hmem).1
        rw [hother, Option.none_or, Host.refusals_lookup (hn.call?_of_mem hx) hw hin]
        exact ⟨_, rfl, .refused reason hended hnot⟩
    · rw [hreceipt, hsome, Option.some_or, Option.some_or]
      exact ⟨r, rfl, hkept ho⟩
  · rw [hlink'] at hmem
    rw [ht.calls]
    have hmem : r ∈ l.receipts ++ Host.refusals h.calls reason l.commands.queue := hmem
    rw [hr, List.mem_append, List.mem_append] at hmem
    rcases hmem with (hmem | hmem) | hmem
    · exact hm.receipts r hmem
    · rcases hown with ⟨rfl, -⟩ | ⟨s, text, -, rfl⟩
      · cases hmem
      · obtain ⟨rfl, hc⟩ := Host.mem_receiptFor hmem
        exact hc
    · exact Host.mem_refusals hmem

include ht in
/-- **A step of the loop.** -/
theorem loop (hm : Mailed b current waiting h) (hn : h.Numbered) (hmove : LoopMove h h.link.loop t) :
    ∃ current' waiting', Mailed ((h.link.loop.event h'.link.loop).toList.foldl Outbox.record b) current' waiting' h' := by
  have hlink := ht.link
  have hwire := ht.wire
  -- the loop does something else than to begin or end a frame
  have hquiet : (∀ id rest, h.link.loop ≠ .writing id rest) → (∀ id rest, h'.link.loop ≠ .writing id rest) →
      h'.link.loop.ended = h.link.loop.ended → t.wire.outbound = h.wire.outbound →
      t.link.commands = h.link.commands → t.link.receipts = h.link.receipts →
      t.link.metrics.framesSent = h.link.metrics.framesSent →
      ∃ current' waiting',
        Mailed ((h.link.loop.event h'.link.loop).toList.foldl Outbox.record b) current' waiting' h' := by
    intro hno hno' he ho hc hr hsent
    have hnone : h.link.loop.event h'.link.loop = none := by
      unfold LoopPoint.event
      split
      · exact absurd ‹_› (hno' _ _)
      · exact absurd ‹_› (hno _ _)
      · rfl
    rw [hnone]
    exact ⟨current, waiting, hm.quiet ht ⟨by rw [hwire, ho], by rw [hlink, hsent], .inr ⟨hno, hno', he⟩,
      by rw [hlink, hc]⟩ hc hr⟩
  -- it ends, and does not write
  have hstop : ∀ {l : Link} {reason : String}, h.link.loop.ended = false → (∀ id rest, h.link.loop ≠ .writing id rest) →
      t.link = l.stopped reason (Host.refusals h.calls reason l.commands.queue) → t.wire = h.wire →
      l.metrics = h.link.metrics → l.receipts = h.link.receipts →
      l.commands.queue.filter LinkCommand.writes = h.link.commands.queue.filter LinkCommand.writes →
      ∃ current' waiting',
        Mailed ((h.link.loop.event h'.link.loop).toList.foldl Outbox.record b) current' waiting' h' := by
    intro l reason hrun hno hl hw hmetrics hr hq
    have hnone : h.link.loop.event h'.link.loop = none := by
      unfold LoopPoint.event
      rw [hlink, hl]
      split
      · cases ‹LoopPoint.parting reason = _›
      · exact absurd ‹_› (hno _ _)
      · rfl
    rw [hnone]
    exact ⟨current, waiting, hm.stop ht hn hrun hl hw (by rw [hmetrics]) hq (by rw [hr, List.append_nil])
      (.inl ⟨rfl, (hm.between hno hrun).1⟩)⟩
  generalize hl : h.link.loop = q at hmove hquiet hstop
  cases hmove with
  | readFailed | hungUp | deserted => exact hstop rfl nofun rfl rfl rfl rfl rfl
  | misframed => exact hstop rfl nofun rfl rfl rfl rfl rfl
  | told hc =>
    refine hstop rfl nofun rfl rfl rfl rfl ?_
    rw [(Channel.take_eq_some hc).1]
    exact (List.filter_cons_of_neg Bool.false_ne_true).symm
  | obeys hc =>
    obtain ⟨s, rest, hm'⟩ := hm.take ht hl hc rfl rfl
    rw [hlink]
    exact ⟨_, _, hm'⟩
  | writeFailed caller rest text hf =>
    obtain ⟨s, part, hc, rfl, -⟩ := hm.within hl
    rw [hlink]
    exact ⟨_, _, hm.stop ht hn (by rw [hl]; rfl) rfl rfl rfl rfl rfl (.inr ⟨s, text, hc, rfl⟩)⟩
  | written caller hf =>
    rw [hlink]
    exact ⟨_, _, hm.complete ht hn hl rfl rfl⟩
  | writes caller rest hf hr n hn' h0 =>
    rw [hlink]
    exact ⟨_, _, hm.write ht hl rfl rfl⟩
  | waits | partsLater =>
    refine hquiet nofun ?_ ?_ rfl rfl rfl rfl
    · rw [hlink, hl]
      exact nofun
    · rw [hlink, hl]
  | _ =>
    refine hquiet nofun ?_ ?_ rfl rfl rfl rfl
    · rw [hlink]
      exact nofun
    · rw [hlink]
      rfl

end Loop

/-! ## Every action -/

/-- **What happens keeps the accounts.** -/
theorem acts {a : Action} (hm : Mailed b current waiting h) (ha : Acts h a h') (hn : h.Numbered) (hu : h.Unstarted) :
    ∃ current' waiting', Mailed ((h.sendEvent a h').toList.foldl Outbox.record b) current' waiting' h' := by
  have hn' := hn.acts ha
  have hsame : h'.wire.outbound = h.wire.outbound → h'.link.metrics = h.link.metrics → h'.link.loop = h.link.loop →
      h'.link.commands = h.link.commands → h'.link.receipts = h.link.receipts → h.made ≤ h'.made →
      (∀ x ∈ h.calls, x ∈ h'.calls) → (∀ x ∈ h'.calls, x ∈ h.calls ∨ x.point.sends = false ∧ h.made ≤ x.id) →
      Mailed b current waiting h' := by
    intro ho hmetrics hl hc hr hmade hold hnew
    refine hm.keep ⟨ho, by rw [hmetrics], .inl hl, by rw [hc]⟩ hmade ⟨[], by rw [hc, List.append_nil], nofun⟩
      (fun x hx => ?_) (fun r hmem => ?_) (fun x _ _ => ?_)
    · rcases hnew x hx with hx | ⟨hno, hid⟩
      · exact .inl hx
      · exact .inr ⟨hno, fun _ s hs => Nat.ne_of_lt (Nat.lt_of_lt_of_le (hm.made hs) hid)⟩
    · rw [hr] at hmem
      obtain ⟨x, hx, hid, hw⟩ := hm.receipts r hmem
      exact ⟨x, hold x hx, hid, hw⟩
    · show h'.link.receipts.lookup x.id = h.link.receipts.lookup x.id
      rw [hr]
  have hless : h'.wire.outbound = h.wire.outbound → h'.link.metrics = h.link.metrics → h'.link.loop = h.link.loop →
      h'.link.commands = h.link.commands → h'.link.receipts = h.link.receipts → h'.made = h.made →
      h'.calls = h.calls → Mailed b current waiting h' := by
    intro ho hmetrics hl hc hr hmade hcalls
    exact hsame ho hmetrics hl hc hr (Nat.le_of_eq hmade.symm) (fun x hx => by rwa [hcalls])
      fun x hx => .inl (by rwa [← hcalls])
  cases ha with
  | idle a hr =>
    rw [Host.sendEvent_refused hr]
    exact ⟨_, _, hm⟩
  | loop i hmove ht => exact hm.loop ht hn hmove
  | @call id i c m h' hcall hmove hl =>
    have hc := Host.call?_mem hcall
    obtain rfl := Host.call?_id hcall
    rw [Host.sendEvent_call i hcall hl hn']
    obtain ⟨waiting', hm'⟩ := hm.call hn hu hc hmove hl
    exact ⟨current, waiting', hm'⟩
  | dispatcher i hmove ht =>
    obtain ⟨events, he⟩ := hmove.link
    exact ⟨_, _, hless (by rw [ht.wire]) (by rw [ht.link, he]) (by rw [ht.link, he]) (by rw [ht.link, he])
      (by rw [ht.link, he]) ht.made ht.calls⟩
  | make r hmake ready =>
    refine ⟨_, _, hsame rfl rfl rfl rfl rfl (Nat.le_succ _) (fun x hx => List.mem_append_left _ hx) fun x hx => ?_⟩
    rcases List.mem_append.mp hx with hx | hx
    · exact .inl hx
    · obtain rfl := List.mem_singleton.mp hx
      exact .inr ⟨rfl, Nat.le_refl _⟩
  | @abandon id c hcall released hr ready =>
    have he : Link.EditsBy c.id c.point h.link (h.link.vacate c) := .vacate .refl
    refine ⟨_, _, hm.leave (c := c) ⟨rfl, he.framesSent, .inl (h.link.loop_vacate c), he.reach.commandsClosed⟩ rfl
      ⟨[], by rw [List.append_nil]; exact h.link.vacate_queue c, nofun⟩ (fun x hx => ?_) (fun x hx hne => ?_)
      (fun r hmem => ⟨he.reach.receipts r hmem, ?_⟩) fun j hj => he.receipt? hj⟩
    · obtain ⟨hx, hne⟩ := List.mem_filter.mp hx
      exact .inl ⟨hx, by simpa using hne⟩
    · exact List.mem_filter.mpr ⟨hx, by simpa using hne⟩
    · exact h.link.vacate_receipts c r hmem
  | _ => exact ⟨_, _, hless rfl rfl rfl rfl rfl rfl rfl⟩

/-- At first nothing is sent. -/
theorem fresh (hcalls : h.calls = []) (hr : h.link.receipts = []) (hq : h.link.commands.queue = [])
    (hc : h.link.commands.closed = false) (hsent : h.link.metrics.framesSent = 0) (ho : h.wire.outbound = [])
    (hrun : h.link.loop.ended = false) (hl : ∀ id rest, h.link.loop ≠ .writing id rest) : Mailed {} [] [] h where
  numbers := rfl
  callers s hs := by cases hs
  called s hs := by cases hs
  distinct := .nil
  queued := rfl
  taken := rfl
  sent := hsent
  carries := .between rfl ho hl
  running _ := ⟨hc, by rw [hq]; rfl⟩
  ended he := by rw [hrun] at he; cases he
  pending _ s hs := by cases hs
  entering c hc := by rw [hcalls] at hc; cases hc
  writing c hc := by rw [hcalls] at hc; cases hc
  receipts r hmem := by rw [hr] at hmem; cases hmem
  returned x hx := by cases hx
  once := .nil

end Mailed

/-! ## Every run -/

namespace Setup

/-- **The accounts of sends are kept by every run.** -/
theorem mailed_run (setup : Setup) (as : List Action) :
    ∃ current waiting, Mailed (setup.host.outbox as) current waiting (setup.host.run as) := by
  induction as using List.reverseRecOn with
  | nil =>
    have hb : setup.host.outbox [] = {} := rfl
    rw [hb]
    have hloop : ∀ id rest, setup.host.link.loop ≠ .writing id rest := by
      intro id rest hl
      cases setup <;> cases hl
    exact ⟨[], [], by cases setup <;> exact .fresh rfl rfl rfl rfl rfl rfl rfl hloop⟩
  | append_singleton as a ih =>
    obtain ⟨current, waiting, hm⟩ := ih
    rw [Host.outbox_concat, Host.run_concat]
    exact hm.acts (setup.acts_run _ a) (setup.numbered_run as) (setup.unstarted_run as)

end Setup
end TwinLink
