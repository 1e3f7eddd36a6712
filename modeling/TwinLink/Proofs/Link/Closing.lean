import TwinLink.Proofs.Link.Events
import TwinLink.Proofs.Link.Writing

/-!
# Sends at the end of a link

Nothing leaves the command queue but the frames that the loop takes up, in their order. So what is queued behind the
command that ends the loop is never written, and when the loop has ended there is an answer to everyone who waits.

* `Acts.queue` : what can happen to the queue;
* `Moment.hasShut` : a call has ended the link; `Outbox.Sealed` : no more than so many sends will be taken up;
* `Outbox.Awaits`, `Moment.givesUp` : a send is under way, and its call is given up;
* `Setup.untaken_run` : what is never taken up;
* `Setup.called_run`, `Setup.returned_of_ended` : what becomes of every send.
-/

namespace TwinLink

/-! ## The command queue -/

/-- What a call has put into the queue it does not take back. -/
theorem Link.Edits.queue {ok : Edit → Prop} {l l' : Link} (he : Edits ok l l') :
    ∃ ys, l'.commands.queue = l.commands.queue ++ ys := by
  induction he with
  | refl => exact ⟨[], (List.append_nil _).symm⟩
  | @tail l' _ e _ _ ih =>
    obtain ⟨ys, ih⟩ := ih
    cases e with
    | send caller x =>
      show ∃ ys, (l'.commands.offer (.call caller) x).1.queue = _
      unfold Channel.offer
      split_ifs
      · exact ⟨ys, ih⟩
      · exact ⟨ys ++ [x], by rw [ih, List.append_assoc]⟩
      · exact ⟨ys, ih⟩
      · exact ⟨ys ++ [x], by rw [ih, List.append_assoc]⟩
      · exact ⟨ys, ih⟩
    | leave caller => exact ⟨ys, (Channel.withdraw_queue _ _).trans ih⟩
    | _ => exact ⟨ys, ih⟩

/-- What has ended stays so. -/
theorem LoopMove.stays_ended {h : Host} {q : LoopPoint} {t : LoopTurn} (hm : LoopMove h q t) (hq : h.link.loop = q)
    (he : q.ended = true) : t.link.loop.ended = true := by
  cases hm with
  | parts | partsUnheard => rfl
  | partsLater reason ho => exact (congrArg LoopPoint.ended hq).trans rfl
  | _ => cases he

theorem Acts.stays_ended {h h' : Host} {a : Action} (ha : Acts h a h') (hu : h.Unstarted)
    (he : h.link.loop.ended = true) : h'.link.loop.ended = true := by
  rcases ha.link hu with ⟨i, t, -, hm, ht⟩ | ⟨events, hl⟩ | ⟨ok, hedits⟩
  · rw [ht.link]
    exact hm.stays_ended rfl he
  · rwa [hl]
  · rcases hedits.frame.loop with hl | ⟨hl, -⟩
    · rwa [hl]
    · rw [hl] at he
      cases he

/-- The loop ends, or takes up the frame at the head of the queue, or takes nothing from it. -/
theorem LoopMove.queue {h : Host} {t : LoopTurn} (hm : LoopMove h h.link.loop t) : t.link.loop.ended = true ∨
    (∃ caller frame, h.link.loop = .listening ∧ t.link.loop = .writing caller frame ∧
      h.link.commands.queue = .write caller frame :: t.link.commands.queue) ∨
    t.link.commands = h.link.commands ∧
      (h.link.loop = .listening → ∀ caller rest, t.link.loop ≠ .writing caller rest) := by
  generalize hl : h.link.loop = q at hm
  cases hm with
  | readFailed | hungUp | told | deserted | misframed | writeFailed | parts | partsUnheard => exact .inl rfl
  | partsLater reason ho => exact .inl ((congrArg LoopPoint.ended hl).trans rfl)
  | obeys hc => exact .inr (.inl ⟨_, _, rfl, rfl, (Channel.take_eq_some hc).1⟩)
  | _ => exact .inr (.inr ⟨rfl, nofun⟩)

/-- Whatever happens, nothing leaves the queue but the frame that the loop takes up, until it ends. -/
theorem Acts.queue {h h' : Host} {a : Action} (ha : Acts h a h') (hu : h.Unstarted) : h'.link.loop.ended = true ∨
    (∃ i caller frame, a = .advance .loop i ∧ h.link.loop = .listening ∧ h'.link.loop = .writing caller frame ∧
      h.link.commands.queue = .write caller frame :: h'.link.commands.queue) ∨
    (∃ ys, h'.link.commands.queue = h.link.commands.queue ++ ys) ∧
      (h.link.loop = .listening → ∀ caller rest, h'.link.loop ≠ .writing caller rest) := by
  rcases ha.link hu with ⟨i, t, rfl, hm, ht⟩ | ⟨events, hl⟩ | ⟨ok, hedits⟩
  · rw [ht.link]
    rcases hm.queue with he | ⟨caller, frame, hl, hl', hq⟩ | ⟨hc, hno⟩
    · exact .inl he
    · exact .inr (.inl ⟨i, caller, frame, rfl, hl, hl', hq⟩)
    · exact .inr (.inr ⟨⟨[], by rw [hc, List.append_nil]⟩, hno⟩)
  · rw [hl]
    refine .inr (.inr ⟨⟨[], by rw [List.append_nil]⟩, fun hlisten caller rest hw => ?_⟩)
    rw [show h.link.loop = _ from hw] at hlisten
    cases hlisten
  · refine .inr (.inr ⟨hedits.queue, fun hlisten caller rest hw => ?_⟩)
    rcases hedits.frame.loop with hl | ⟨-, hl⟩
    · rw [hl, hlisten] at hw
      cases hw
    · rw [hl] at hw
      cases hw

/-! ## What is sealed off -/

/-- No more than `n` sends will ever be taken up: the loop has ended, or it will when it gets to the command for that. -/
def Outbox.Sealed (n : Nat) (b : Outbox) (h : Host) : Prop :=
  b.taken.length ≤ n ∧ (h.link.loop.ended = true ∨ ∃ xs ys, h.link.commands.queue = xs ++ .shutdown :: ys ∧
    b.taken.length + xs.countP LinkCommand.writes ≤ n)

/-- The loop takes up a frame when it has listened. -/
theorem Host.sendEvent_taken {h h' : Host} {a : Action} {caller : Nat} (he : h.sendEvent a h' = some (.taken caller)) :
    h.link.loop = .listening ∧ ∃ rest, h'.link.loop = .writing caller rest := by
  have hcall : ∀ c q, h.callEvent c q ≠ some (.taken caller) := by
    intro c q hno
    unfold callEvent at hno
    split at hno
    · cases hno
    · simp at hno
    · simp at hno
  unfold sendEvent at he
  split at he
  · obtain ⟨c, -, hc⟩ := Option.bind_eq_some_iff.mp he
    exact absurd hc (hcall _ _)
  · unfold LoopPoint.event at he
    split at he
    · cases he
      exact ⟨‹_›, _, ‹_›⟩
    · cases he
    · cases he
  · cases he

theorem Outbox.record_taken {b : Outbox} {e : SendEvent} (he : ∀ caller, e ≠ .taken caller) :
    (b.record e).taken = b.taken := by
  cases e with
  | taken caller => exact absurd rfl (he caller)
  | _ => rfl

namespace Outbox.Sealed

variable {n : Nat} {b : Outbox} {h h' : Host} {a : Action}

/-- **What is sealed off stays so.** -/
theorem acts (hs : b.Sealed n h) (ha : Acts h a h') (hu : h.Unstarted) :
    Sealed n ((h.sendEvent a h').toList.foldl record b) h' := by
  obtain ⟨hn, hq⟩ := hs
  -- nothing is taken up, and nothing leaves the queue
  have hkeep : (h.link.loop = .listening → ∀ caller rest, h'.link.loop ≠ .writing caller rest) →
      h'.link.loop.ended = true ∨ (∃ ys, h'.link.commands.queue = h.link.commands.queue ++ ys) →
      Sealed n ((h.sendEvent a h').toList.foldl record b) h' := by
    intro hno hgrow
    have ht : ((h.sendEvent a h').toList.foldl record b).taken = b.taken := by
      cases he : h.sendEvent a h' with
      | none => rfl
      | some e =>
        refine record_taken fun caller hc => ?_
        rw [hc] at he
        obtain ⟨hl, rest, hl'⟩ := Host.sendEvent_taken he
        exact hno hl caller rest hl'
    unfold Sealed
    rw [ht]
    refine ⟨hn, ?_⟩
    rcases hgrow with he | ⟨zs, hz⟩
    · exact .inl he
    · rcases hq with he | ⟨xs, ys, hxs, hle⟩
      · exact .inl (ha.stays_ended hu he)
      · exact .inr ⟨xs, ys ++ zs, by rw [hz, hxs, List.append_assoc, List.cons_append], hle⟩
  rcases ha.queue hu with he | ⟨i, caller, frame, rfl, hl, hl', htake⟩ | ⟨hgrow, hno⟩
  · refine hkeep (fun _ caller rest hw => ?_) (.inl he)
    rw [hw] at he
    cases he
  · -- what is taken up stands before the command to end
    obtain ⟨xs, ys, hxs, hle⟩ := hq.resolve_left (by rw [hl]; exact nofun)
    rw [htake] at hxs
    cases xs with
    | nil => cases hxs
    | cons x xs =>
      obtain ⟨rfl, hrest⟩ := List.cons.inj hxs
      have hevent : h.sendEvent (.advance .loop i) h' = some (.taken caller) := by
        show h.link.loop.event h'.link.loop = _
        rw [hl, hl']
        rfl
      have hlen : (b.taken ++ (b.last caller).toList).length ≤ b.taken.length + 1 := by
        rw [List.length_append]
        cases b.last caller <;> simp
      rw [hevent]
      show (b.taken ++ (b.last caller).toList).length ≤ n ∧ _
      rw [List.countP_cons_of_pos rfl] at hle
      refine ⟨by omega, .inr ⟨xs, ys, hrest, ?_⟩⟩
      show (b.taken ++ (b.last caller).toList).length + _ ≤ n
      omega
  · exact hkeep hno (.inr hgrow)

/-- Where the command to end the loop is queued, no more sends than those that are queued will be taken up. -/
theorem of_shutdown {current waiting : List Send} (hm : Mailed b current waiting h)
    (hq : .shutdown ∈ h.link.commands.queue) (he : h.link.loop.ended = false) : b.Sealed b.queued.length h := by
  obtain ⟨xs, ys, hxs⟩ := List.append_of_mem hq
  have hcount : xs.countP LinkCommand.writes ≤ waiting.length := by
    have hlen := congrArg List.length (hm.running he).2
    rw [← List.countP_eq_length_filter, List.length_map, hxs, List.countP_append] at hlen
    omega
  rw [hm.queued, List.length_append]
  exact ⟨Nat.le_add_right _ _, .inr ⟨xs, ys, hxs, Nat.add_le_add_left hcount _⟩⟩

/-- Once the loop has ended nothing more is taken up. -/
theorem of_ended (he : h.link.loop.ended = true) : b.Sealed b.taken.length h := ⟨Nat.le_refl _, .inl he⟩

end Outbox.Sealed

/-! ## Ending the link -/

/-- A call has ended the link: its command for that is queued, or the loop has ended before. -/
def Moment.hasShut (m : Moment) : Bool := m.mover.any fun c =>
  match c.point with
  | .shutting _ => (m.after.call? c.id).isNone
  | _ => false

theorem Moment.hasShut_cases {m : Moment} (hs : m.hasShut = true) (hn : m.host.Numbered) :
    .shutdown ∈ m.after.link.commands.queue ∨ m.host.link.commands.closed = true := by
  unfold hasShut at hs
  cases hc : m.mover with
  | none => rw [hc] at hs; cases hs
  | some c =>
    rw [hc, Option.any_some] at hs
    cases hp : c.point with
    | shutting answer =>
      rw [hp] at hs
      have hs : m.after.call? c.id = none := Option.isNone_iff_eq_none.mp hs
      obtain ⟨hmem, ⟨-, hsame⟩ | ⟨move, hm, hl⟩⟩ := mover_acts hc
      · rw [hsame, hn.call?_of_mem hmem] at hs
        cases hs
      · have hafter := hl.pointAfter hmem (hn.leaves hl)
        rw [hs] at hafter
        have hqueue : m.after.link.commands.queue = move.link.commands.queue := by rw [hl.link, Move.linkAfter_queue]
        rw [hqueue]
        rw [hp] at hm
        cases hm with
        | told answer ho =>
          rw [(Channel.offer_admitted _ ho).1]
          exact .inl List.mem_concat_self
        | untold answer hcl => exact .inr hcl
        | telling answer ho => cases hafter
    | _ => rw [hp] at hs; cases hs

/-! ## Sends under way -/

/-- The call still waits for its send. -/
def Outbox.Awaits (b : Outbox) (h : Host) (s : Send) : Prop :=
  ∃ c ∈ h.calls, c.id = s.caller ∧ c.point.sends = true ∧ b.last c.id = some s

/-- The call of the send is given up. -/
def Moment.givesUp (m : Moment) (s : Send) : Prop := m.action = .abandon s.caller ∧ ∃ c ∈ m.host.calls, c.id = s.caller

/-- Only a send that is called becomes the last of its call. -/
theorem Outbox.record_last {b : Outbox} {e : SendEvent} {id : Nat} (he : ∀ p, e ≠ .called id p) :
    (b.record e).last id = b.last id := by
  cases e with
  | called caller p =>
    rw [last_called, if_neg]
    rintro rfl
    exact he p rfl
  | _ => rfl

theorem Host.sendEvent_called {h h' : Host} {a : Action} {caller : Nat} {p : Packet}
    (he : h.sendEvent a h' = some (.called caller p)) : ∃ i, a = .advance (.call caller) i := by
  unfold sendEvent at he
  split at he
  · rename_i id i
    obtain ⟨c, hc, he⟩ := Option.bind_eq_some_iff.mp he
    refine ⟨i, ?_⟩
    rw [← call?_id hc]
    unfold callEvent at he
    split at he
    · cases he
    · obtain ⟨_, -, he⟩ := Option.map_eq_some_iff.mp he
      cases he
      rfl
    · obtain ⟨_, -, he⟩ := Option.map_eq_some_iff.mp he
      cases he
  · unfold LoopPoint.event at he
    split at he <;> cases he
  · cases he

namespace Outbox

variable {b : Outbox} {h h' : Host} {a : Action} {s : Send}

/-- **A send is under way until it returns, unless its call is given up.** -/
theorem Awaits.acts (hs : b.Awaits h s) (ha : Acts h a h') (hn : h.Numbered) :
    s ∈ (((h.sendEvent a h').toList.foldl record b).returned.map (·.1)) ∨
      Awaits ((h.sendEvent a h').toList.foldl record b) h' s ∨ a = .abandon s.caller := by
  have hn' := hn.acts ha
  obtain ⟨c, hc, hid, hsends, hlast⟩ := hs
  -- another acts, and the call stays
  have hstays : (∀ i, a ≠ .advance (.call c.id) i) → c ∈ h'.calls →
      Awaits ((h.sendEvent a h').toList.foldl record b) h' s := by
    intro hno hc'
    refine ⟨c, hc', hid, hsends, ?_⟩
    cases he : h.sendEvent a h' with
    | none => exact hlast
    | some e =>
      refine (record_last fun p hp => ?_).trans hlast
      rw [hp] at he
      obtain ⟨i, hi⟩ := Host.sendEvent_called he
      exact hno i hi
  have hsame : (∀ i, a ≠ .advance (.call c.id) i) → h'.calls = h.calls →
      s ∈ (((h.sendEvent a h').toList.foldl record b).returned.map (·.1)) ∨
        Awaits ((h.sendEvent a h').toList.foldl record b) h' s ∨ a = .abandon s.caller := by
    intro hno hcalls
    exact .inr (.inl (hstays hno (by rwa [hcalls])))
  cases ha with
  | idle a hr =>
    rw [Host.sendEvent_refused hr]
    exact .inr (.inl ⟨c, hc, hid, hsends, hlast⟩)
  | loop i hm ht => exact hsame (fun i hi => by cases hi) ht.calls
  | dispatcher i hm ht => exact hsame (fun i hi => by cases hi) ht.calls
  | make r hm ready => exact .inr (.inl (hstays (fun i hi => by cases hi) (List.mem_append_left _ hc)))
  | @abandon id x hx released hr ready =>
    by_cases he : id = s.caller
    · exact .inr (.inr (by rw [he]))
    · refine .inr (.inl (hstays (fun i hi => by cases hi) (List.mem_filter.mpr ⟨hc, ?_⟩)))
      rw [Host.call?_id hx, hid]
      simpa using Ne.symm he
  | @call id i x m h' hx hm hl =>
    have hmem := Host.call?_mem hx
    obtain rfl := Host.call?_id hx
    by_cases hxc : c.id = x.id
    · obtain rfl := hn.eq_of_id hc hmem hxc
      rw [Host.sendEvent_call i hx hl hn']
      have hsend := hm.sends
      generalize h.callEvent c (m.pointAfter c) = event at hsend ⊢
      cases hsend with
      | calls hp hno hf => rw [hsends] at hno; cases hno
      | queues hp ho hlink hf =>
        have hmem := Move.mem_callsAfter_of_goes hc hf
        rw [← hl.calls] at hmem
        exact .inr (.inl ⟨_, hmem, hid, rfl, hlast⟩)
      | returns hs hr hf hg =>
        refine .inl ?_
        show s ∈ (b.returned ++ ((b.last c.id).map (·, _)).toList).map Prod.fst
        rw [hlast, List.map_append]
        exact List.mem_concat_self
      | other hr hw hf =>
        rcases hf with hf | ⟨hno, -⟩
        · refine .inr (.inl ⟨c, ?_, hid, hsends, hlast⟩)
          rw [hl.calls, Move.callsAfter, hf]
          exact hc
        · rw [hsends] at hno
          cases hno
    · refine .inr (.inl (hstays (fun j hj => hxc ?_) ?_))
      · rw [Action.advance.injEq, Actor.call.injEq] at hj
        exact hj.1.symm
      · rw [hl.calls]
        exact Move.mem_callsAfter_of_ne hc hxc
  | _ => exact hsame (fun i hi => by cases hi) rfl

/-- A send that is called is under way. -/
theorem called_acts (ha : Acts h a h') (hn : h.Numbered) (hs : s ∈ ((h.sendEvent a h').toList.foldl record b).called) :
    s ∈ b.called ∨ Awaits ((h.sendEvent a h').toList.foldl record b) h' s := by
  have hn' := hn.acts ha
  cases he : h.sendEvent a h' with
  | none =>
    rw [he] at hs
    exact .inl hs
  | some e =>
    rw [he] at hs
    cases e with
    | called caller p =>
      rcases List.mem_append.mp hs with hs | hs
      · exact .inl hs
      obtain rfl := List.mem_singleton.mp hs
      obtain ⟨i, rfl⟩ := Host.sendEvent_called he
      refine .inr ?_
      cases ha with
      | idle a hr => rw [Host.sendEvent_refused hr] at he; cases he
      | @call _ _ c m _ hc hm hl =>
        have hmem := Host.call?_mem hc
        have hevent := Host.sendEvent_call i hc hl hn'
        obtain rfl := Host.call?_id hc
        have hsend := hm.sends
        rw [← hevent, he] at hsend
        generalize hev : some (SendEvent.called c.id p) = event at hsend
        cases hsend with
        | calls hp hno hf =>
          cases hev
          have hmem := Move.mem_callsAfter_of_goes hmem hf
          rw [← hl.calls] at hmem
          refine ⟨_, hmem, rfl, rfl, ?_⟩
          show (b.record (.called c.id p)).last c.id = _
          rw [last_called, if_pos rfl]
        | _ => cases hev
    | _ => exact .inl hs

/-- A send that is not taken up can only return that the link is closed. -/
theorem Outcome.closed {ended : Bool} {r : Except LinkError Unit} (ho : b.Outcome ended s r)
    (hsub : b.written ⊆ b.taken) (hs : s ∉ b.taken) : ∃ reason, r = .error (.closed reason) := by
  cases ho with
  | written hw => exact absurd (hsub hw) hs
  | failed text he ht hw => exact absurd ht hs
  | refused reason he ht => exact ⟨reason, rfl⟩

/-- Once the loop has ended there is something to return for every send under way. -/
theorem Awaits.sendResult {current waiting : List Send} (hs : b.Awaits h s) (hm : Mailed b current waiting h)
    (he : h.link.loop.ended = true) :
    ∃ c ∈ h.calls, c.id = s.caller ∧ b.last c.id = some s ∧ ∃ r, h.sendResult c = some r := by
  obtain ⟨c, hc, hid, hsends, hlast⟩ := hs
  refine ⟨c, hc, hid, hlast, ?_⟩
  unfold Host.sendResult
  cases hp : c.point with
  | entering frame ticket limit purpose =>
    have ho : h.link.commands.offer (.call c.id) (.write c.id frame) = (h.link.commands, .refused) :=
      if_pos (hm.ended he).1
    exact ⟨.error h.link.closedError, by dsimp only; rw [ho]⟩
  | writing ticket limit purpose =>
    obtain ⟨_, -, -, -, hstage⟩ := hm.writing c hc (by rw [hp]; rfl)
    rcases hstage with ⟨hrun, -⟩ | ⟨r, hr, -⟩
    · rw [he] at hrun
      cases hrun
    · exact ⟨r, hr⟩
  | _ => rw [hp] at hsends; cases hsends

end Outbox

/-! ## Every run -/

namespace Outbox

/-- Nothing is forgotten. -/
structure Grows (b b' : Outbox) : Prop where
  called : b.called <+: b'.called
  queued : b.queued <+: b'.queued
  taken : b.taken <+: b'.taken
  written : b.written <+: b'.written
  returned : b.returned <+: b'.returned

theorem Grows.refl (b : Outbox) : b.Grows b :=
  ⟨List.prefix_rfl, List.prefix_rfl, List.prefix_rfl, List.prefix_rfl, List.prefix_rfl⟩

theorem Grows.record {b b' : Outbox} (hg : b.Grows b') (e : SendEvent) : b.Grows (b'.record e) := by
  obtain ⟨hc, hq, ht, hw, hr⟩ := hg
  cases e with
  | called caller p => exact ⟨hc.trans (List.prefix_append _ _), hq, ht, hw, hr⟩
  | queued caller => exact ⟨hc, hq.trans (List.prefix_append _ _), ht, hw, hr⟩
  | taken caller => exact ⟨hc, hq, ht.trans (List.prefix_append _ _), hw, hr⟩
  | written caller => exact ⟨hc, hq, ht, hw.trans (List.prefix_append _ _), hr⟩
  | returned caller r => exact ⟨hc, hq, ht, hw, hr.trans (List.prefix_append _ _)⟩

end Outbox

theorem Host.outbox_grows (h : Host) (as bs : List Action) : (h.outbox as).Grows (h.outbox (as ++ bs)) := by
  induction bs using List.reverseRecOn with
  | nil =>
    rw [List.append_nil]
    exact .refl _
  | append_singleton bs a ih =>
    rw [← List.append_assoc, outbox_concat]
    cases Moment.sendEvent ⟨h.run (as ++ bs), a⟩ with
    | none => exact ih
    | some e => exact ih.record e

namespace Setup

variable (setup : Setup) (as bs : List Action)

theorem ended_run (he : (setup.host.run as).link.loop.ended = true) :
    (setup.host.run (as ++ bs)).link.loop.ended = true := by
  induction bs using List.reverseRecOn with
  | nil => rwa [List.append_nil]
  | append_singleton bs a ih =>
    rw [← List.append_assoc, Host.run_concat]
    exact (setup.acts_run _ a).stays_ended (setup.unstarted_run _) ih

/-- **What is sealed off stays so.** -/
theorem sealed_run {n : Nat} (hs : (setup.host.outbox as).Sealed n (setup.host.run as)) :
    (setup.host.outbox (as ++ bs)).Sealed n (setup.host.run (as ++ bs)) := by
  induction bs using List.reverseRecOn with
  | nil => rwa [List.append_nil]
  | append_singleton bs a ih =>
    rw [← List.append_assoc, Host.outbox_concat, Host.run_concat]
    exact ih.acts (setup.acts_run _ a) (setup.unstarted_run _)

/-- **When a call has ended the link, no more sends than those that are queued will be taken up.** -/
theorem sealed_of_shut (a : Action) (hs : (Moment.mk (setup.host.run as) a).hasShut = true) :
    (setup.host.outbox (as ++ [a])).Sealed (setup.host.outbox (as ++ [a])).queued.length
      (setup.host.run (as ++ [a])) := by
  obtain ⟨current, waiting, hm⟩ := setup.mailed_run (as ++ [a])
  cases he : (setup.host.run (as ++ [a])).link.loop.ended with
  | true =>
    refine ⟨?_, .inl he⟩
    rw [hm.queued, List.length_append]
    exact Nat.le_add_right _ _
  | false =>
    rcases Moment.hasShut_cases hs (setup.numbered_run as) with hq | hc
    · refine .of_shutdown hm ?_ he
      rwa [Host.run_concat]
    · -- where the queue is closed the loop has ended
      obtain ⟨_, _, hm₀⟩ := setup.mailed_run as
      rw [setup.ended_run as [a] (hm₀.closed_eq.symm.trans hc)] at he
      cases he

/-- A send that is not among those sealed in is never taken up. -/
theorem untaken_run {n : Nat} (hs : (setup.host.outbox as).Sealed n (setup.host.run as))
    (hn : n ≤ (setup.host.outbox as).queued.length) {s : Send} (hout : s ∉ (setup.host.outbox as).queued.take n) :
    s ∉ (setup.host.outbox (as ++ bs)).taken := by
  obtain ⟨current, waiting, hm⟩ := setup.mailed_run (as ++ bs)
  have hlen := (setup.sealed_run as bs hs).1
  obtain ⟨more, hmore⟩ := (setup.host.outbox_grows as bs).queued
  intro ht
  have hmem : s ∈ (setup.host.outbox (as ++ bs)).queued.take n := by
    rw [hm.queued, List.take_append]
    exact List.mem_append_left _ (by rwa [List.take_of_length_le hlen])
  rw [← hmore, List.take_append_of_le_length hn] at hmem
  exact hout hmem

theorem awaits_concat {s : Send} (hs : (setup.host.outbox as).Awaits (setup.host.run as) s) (a : Action) :
    s ∈ (setup.host.outbox (as ++ [a])).returned.map (·.1) ∨
      (setup.host.outbox (as ++ [a])).Awaits (setup.host.run (as ++ [a])) s ∨
        ∃ m ∈ setup.host.moments (as ++ [a]), m.givesUp s := by
  obtain ⟨c, hc, hid, -⟩ := id hs
  rw [Host.outbox_concat, Host.run_concat, Host.moments_concat]
  refine (hs.acts (setup.acts_run _ a) (setup.numbered_run as)).imp_right (Or.imp_right fun ha => ?_)
  exact ⟨_, List.mem_concat_self, ha, c, hc, hid⟩

/-- **A send has returned, or is under way, or its call was given up.** -/
theorem called_run {s : Send} (hs : s ∈ (setup.host.outbox as).called) :
    s ∈ (setup.host.outbox as).returned.map (·.1) ∨ (setup.host.outbox as).Awaits (setup.host.run as) s ∨
      ∃ m ∈ setup.host.moments as, m.givesUp s := by
  induction as using List.reverseRecOn with
  | nil => cases hs
  | append_singleton as a ih =>
    have hgrows := (setup.host.outbox_grows as [a]).returned
    rw [Host.outbox_concat] at hs
    rcases Outbox.called_acts (setup.acts_run _ a) (setup.numbered_run as) hs with hs | hs
    · rcases ih hs with hr | hw | ⟨m, hm, hg⟩
      · exact .inl ((hgrows.map _).subset hr)
      · exact setup.awaits_concat as hw a
      · exact .inr (.inr ⟨m, (Host.moments_mono _ (List.prefix_append _ _)).subset hm, hg⟩)
    · rw [Host.outbox_concat, Host.run_concat]
      exact .inr (.inl hs)

/-- **Once the loop has ended every send returns with the next step of its call.** -/
theorem returned_of_ended {s : Send} (he : (setup.host.run as).link.loop.ended = true)
    (hs : (setup.host.outbox as).Awaits (setup.host.run as) s) (i : Bool) :
    s ∈ (setup.host.outbox (as ++ [.advance (.call s.caller) i])).returned.map (·.1) := by
  obtain ⟨current, waiting, hm⟩ := setup.mailed_run as
  obtain ⟨c, hc, hid, hlast, r, hr⟩ := hs.sendResult hm he
  have hn := setup.numbered_run as
  have hmover : (Moment.mk (setup.host.run as) (.advance (.call s.caller) i)).mover = some c := by
    rw [← hid]
    exact hn.call?_of_mem hc
  rw [Host.outbox_concat, Moment.sendEvent_returned hmover hr hn]
  show s ∈ ((setup.host.outbox as).returned ++ _).map (·.1)
  rw [hlast, List.map_append]
  exact List.mem_concat_self

end Setup

end TwinLink
