import TwinLink.Proofs.Link.Outbox

/-!
# How sends belong to the command queue and to the byte stream

A send that was called waits for a place in the queue, or has its frame there, or the loop is writing it, or it has a
report to pick up. What calls do moves a send on to the queue, and takes the report away.

* `Outbox.Outcome` : what a send can return; `Outbox.Carries` : the bytes written are the frames written;
* `Mailed b current waiting h` : how the sends so far belong to the host;
* `Mailed.carry`, `Mailed.keep`, `Mailed.leave` : what keeps this while the loop rests;
* `Mailed.post`, `Mailed.enqueue`, `Mailed.answer` : a send is called, gets into the queue, returns; `Mailed.call`.
-/

namespace TwinLink

open Decoder (frameOf)

/-! ## Reports -/

theorem lookup_filter_ne {α : Type} {i j : Nat} (hj : j ≠ i) (xs : List (Nat × α)) :
    (xs.filter fun x => x.1 != i).lookup j = xs.lookup j := by
  induction xs with
  | nil => rfl
  | cons x xs ih =>
    by_cases hx : x.1 = i
    · have hne : (j == x.1) = false := beq_false_of_ne (by rw [hx]; exact hj)
      rw [List.filter_cons_of_neg (by simpa using hx), ih, List.lookup_cons, hne]
    · rw [List.filter_cons_of_pos (by simpa using hx), List.lookup_cons, List.lookup_cons, ih]

namespace Link

variable {l l' : Link} {id : Nat} {q : Point}

theorem Edits.framesSent {ok : Edit → Prop} (he : Edits ok l l') : l'.metrics.framesSent = l.metrics.framesSent := by
  induction he with
  | refl => rfl
  | tail _ e _ _ ih => cases e <;> exact ih

/-- A call drops no report but its own. -/
theorem EditsBy.receipt? (he : EditsBy id q l l') {j : Nat} (hj : j ≠ id) : l'.receipt? j = l.receipt? j := by
  induction he with
  | refl => rfl
  | @tail l' _ e hok _ ih =>
    cases e with
    | dropReceipt caller =>
      obtain rfl : caller = id := hok
      exact (lookup_filter_ne hj _).trans ih
    | _ => exact ih

theorem vacate_receipts (l : Link) (c : Call) : ∀ r ∈ (l.vacate c).receipts, r.1 ≠ c.id := by
  intro r hr
  unfold vacate at hr
  cases ht : c.point.ticket? <;> rw [ht] at hr <;> simpa using (List.mem_filter.mp hr).2

theorem receipt?_none (hr : ∀ r ∈ l.receipts, r.1 ≠ id) : l.receipt? id = none := by
  cases hl : l.receipt? id with
  | none => rfl
  | some r => exact absurd rfl (hr _ (mem_receipts hl))

end Link

/-- A send that returns drops the report to it. -/
theorem CallMove.drops {h : Host} {c : Call} {m : Move} {ticket : Option Ticket} {limit : Option Nat} {purpose : Purpose}
    (hm : CallMove h c (.writing ticket limit purpose) m) : ∀ r ∈ m.link.receipts, r.1 ≠ c.id := by
  have hdrop : ∀ r ∈ (h.link.dropReceipt c.id).receipts, r.1 ≠ c.id := by
    intro r hr
    simpa using (List.mem_filter.mp hr).2
  cases hm with
  | unwritten ticket limit purpose e hr hf =>
    have hl : m.link.receipts = (h.link.dropReceipt c.id).receipts := by
      cases hf <;> cases ticket <;> rfl
    rw [hl]
    exact hdrop
  | sent | written => exact hdrop

namespace Host

variable {calls : List Call} {caller : Nat} {result : Except LinkError Unit} {reason : String} {c : Call}

/-- Reports go to those who wait for them. -/
theorem mem_receiptFor {r : Nat × Except LinkError Unit} (hr : r ∈ receiptFor calls caller result) :
    r = (caller, result) ∧ ∃ c ∈ calls, c.id = caller ∧ c.point.writes := by
  refine ⟨receiptFor_eq hr, ?_⟩
  unfold receiptFor at hr
  split at hr
  · rename_i id ticket limit purpose holds hf
    have hid := List.find?_some hf
    exact ⟨_, List.mem_of_find?_eq_some hf, by simpa using hid, rfl⟩
  · cases hr

theorem mem_refusals {q : List LinkCommand} {r : Nat × Except LinkError Unit} (hr : r ∈ refusals calls reason q) :
    ∃ c ∈ calls, c.id = r.1 ∧ c.point.writes := by
  induction q with
  | nil => cases hr
  | cons x q ih =>
    cases x with
    | shutdown => exact ih hr
    | write caller frame =>
      rcases List.mem_append.mp hr with hr | hr
      · obtain ⟨rfl, hc⟩ := mem_receiptFor hr
        exact hc
      · exact ih hr

theorem receiptFor_of_writes (hc : calls.find? (·.id == c.id) = some c) (hw : c.point.writes) :
    receiptFor calls c.id result = [(c.id, result)] := by
  obtain ⟨id, point, holds⟩ := c
  unfold receiptFor
  rw [hc]
  cases point with
  | writing => rfl
  | _ => cases hw

theorem receiptFor_lookup_ne {id : Nat} (hne : caller ≠ id) : (receiptFor calls caller result).lookup id = none := by
  refine List.lookup_eq_none_iff.mpr fun r hr => ?_
  rw [receiptFor_eq hr]
  simpa using hne.symm

/-- Who waits for a frame that is left in the queue is told that the link is closed. -/
theorem refusals_lookup (hc : calls.find? (·.id == c.id) = some c) (hw : c.point.writes) {q : List LinkCommand}
    {frame : Bytes} (hq : .write c.id frame ∈ q) :
    (refusals calls reason q).lookup c.id = some (.error (.closed reason)) := by
  induction q with
  | nil => cases hq
  | cons x q ih =>
    have hrest : x ≠ .write c.id frame → (refusals calls reason q).lookup c.id = some (.error (.closed reason)) := by
      intro hne
      exact ih ((List.mem_cons.mp hq).resolve_left fun he => hne he.symm)
    cases x with
    | shutdown => exact hrest nofun
    | write caller frame' =>
      show (receiptFor calls caller _ ++ refusals calls reason q).lookup c.id = _
      rw [List.lookup_append]
      by_cases he : caller = c.id
      · rw [he, receiptFor_of_writes hc hw, List.lookup_cons_self, Option.some_or]
      · rw [receiptFor_lookup_ne he, Option.none_or]
        exact hrest fun h => he (by cases h; rfl)

end Host

/-! ## The invariant -/

/-- The command carries a frame. -/
def LinkCommand.writes : LinkCommand → Bool
  | .write .. => true
  | .shutdown => false

/-- What a send can return, `ended` telling whether the loop has ended: its packet is written; or the write failed; or the
loop ended before it was taken up. -/
inductive Outbox.Outcome (b : Outbox) (ended : Bool) (s : Send) : Except LinkError Unit → Prop
  | written (hw : s ∈ b.written) : Outcome b ended s (.ok ())
  | failed (text : String) (he : ended = true) (ht : s ∈ b.taken) (hw : s ∉ b.written) :
      Outcome b ended s (.error (.io text))
  | refused (reason : String) (he : ended = true) (ht : s ∉ b.taken) : Outcome b ended s (.error (.closed reason))

/-- The bytes written are the frames written, and what has been written of the frame of `current`. -/
inductive Outbox.Carries (b : Outbox) (current : List Send) (h : Host) : Prop
  | between (hc : current = []) (ho : h.wire.outbound = b.written.flatMap Send.frame)
      (hl : ∀ id rest, h.link.loop ≠ .writing id rest)
  | within (s : Send) (part rest : Bytes) (hc : current = [s])
      (ho : h.wire.outbound = b.written.flatMap Send.frame ++ part)
      (hp : part ++ rest = s.frame) (hl : h.link.loop = .writing s.caller rest ∨ h.link.loop.ended = true)

/-- How calls, command queue, loop and byte stream belong to the sends so far: `current` has been taken up and is not
written, and `waiting` are queued and not taken up. -/
structure Mailed (b : Outbox) (current waiting : List Send) (h : Host) : Prop where
  numbers : b.called.map Send.number = List.range b.called.length
  callers : ∀ s ∈ b.called, s.caller < h.made
  called : ∀ s ∈ b.queued, s ∈ b.called
  distinct : b.queued.Nodup
  queued : b.queued = b.taken ++ waiting
  taken : b.taken = b.written ++ current
  sent : h.link.metrics.framesSent = b.written.length
  carries : b.Carries current h
  running : h.link.loop.ended = false → h.link.commands.closed = false ∧
    h.link.commands.queue.filter LinkCommand.writes = waiting.map Send.command
  ended : h.link.loop.ended = true → h.link.commands.closed = true ∧ h.link.commands.queue = []
  pending : h.link.loop.ended = false → ∀ s ∈ current ++ waiting, b.last s.caller = some s ∧
    ∀ c ∈ h.calls, c.id = s.caller → c.point.writes
  entering : ∀ c ∈ h.calls, ∀ frame ticket limit purpose, c.point = .entering frame ticket limit purpose →
    ∃ s, b.last c.id = some s ∧ frame = s.frame ∧ s ∉ b.queued ∧ s ∉ b.returned.map (·.1)
  writing : ∀ c ∈ h.calls, c.point.writes → ∃ s, b.last c.id = some s ∧ s ∈ b.queued ∧ s ∉ b.returned.map (·.1) ∧
    (h.link.loop.ended = false ∧ h.link.receipt? c.id = none ∧ s ∈ current ++ waiting ∨
      ∃ r, h.link.receipt? c.id = some r ∧ b.Outcome h.link.loop.ended s r)
  receipts : ∀ r ∈ h.link.receipts, ∃ c ∈ h.calls, c.id = r.1 ∧ c.point.writes
  returned : ∀ x ∈ b.returned, x.1 ∈ b.called ∧ b.Outcome h.link.loop.ended x.1 x.2
  once : (b.returned.map (·.1)).Nodup

/-- Nothing is written, and the loop neither begins nor ends a frame. -/
structure Host.SameStream (h h' : Host) : Prop where
  outbound : h'.wire.outbound = h.wire.outbound
  sent : h'.link.metrics.framesSent = h.link.metrics.framesSent
  loop : h'.link.loop = h.link.loop ∨ (∀ id rest, h.link.loop ≠ .writing id rest) ∧
    (∀ id rest, h'.link.loop ≠ .writing id rest) ∧ h'.link.loop.ended = h.link.loop.ended
  closed : h'.link.commands.closed = h.link.commands.closed

namespace Host.SameStream

variable {h h' : Host}

theorem ended (hs : h.SameStream h') : h'.link.loop.ended = h.link.loop.ended := by
  rcases hs.loop with hl | ⟨-, -, hl⟩
  · rw [hl]
  · exact hl

end Host.SameStream

namespace Outbox

variable {b b' : Outbox} {current : List Send} {h h' : Host} {s : Send}

/-- Only what has been written matters. -/
theorem Carries.congr (hc : b.Carries current h) (hw : b'.written = b.written) : b'.Carries current h := by
  cases hc with
  | between hc ho hl => exact .between hc (hw ▸ ho) hl
  | within s part rest hc ho hp hl => exact .within s part rest hc (hw ▸ ho) hp hl

/-- What a send has returned stays true while nothing is taken up after the end. -/
theorem Outcome.mono {ended ended' : Bool} {r : Except LinkError Unit} (ho : b.Outcome ended s r)
    (hw : b.written ⊆ b'.written)
    (he : ended = true → ended' = true ∧ b'.taken = b.taken ∧ b'.written = b.written) : b'.Outcome ended' s r := by
  cases ho with
  | written h => exact .written (hw h)
  | failed text h ht hn =>
    obtain ⟨he', ht', hw'⟩ := he h
    exact .failed text he' (ht' ▸ ht) (hw' ▸ hn)
  | refused reason h ht =>
    obtain ⟨he', ht', -⟩ := he h
    exact .refused reason he' (ht' ▸ ht)

theorem Carries.keep (hc : b.Carries current h) (hs : h.SameStream h') : b.Carries current h' := by
  cases hc with
  | between hc ho hl =>
    refine .between hc (hs.outbound.trans ho) ?_
    rcases hs.loop with he | ⟨-, hl', -⟩
    · rwa [he]
    · exact hl'
  | within s part rest hc ho hp hl =>
    refine .within s part rest hc (hs.outbound.trans ho) hp ?_
    rcases hs.loop with he | ⟨hno, -, he⟩
    · rwa [he]
    · exact .inr (he.trans (hl.resolve_left (hno _ _)))

end Outbox

/-- What a move of a call does to the loop and to the stream. -/
theorem Host.Leaves.sameStream {h h' : Host} {c : Call} {m : Move} (hl : h.Leaves c m h') (hu : h.Unstarted)
    (hm : CallMove h c c.point m) : h.SameStream h' := by
  have he := hl.edits hu hm
  refine ⟨by rw [hl.wire], he.framesSent, ?_, he.reach.commandsClosed⟩
  rcases he.frame.loop with hloop | ⟨habs, hloop⟩
  · exact .inl hloop
  · rw [habs, hloop]
    exact .inr ⟨nofun, nofun, rfl⟩

namespace Mailed

variable {b : Outbox} {current waiting : List Send} {h h' : Host} {c : Call} {s : Send}

/-- The command queue is open as long as the loop runs. -/
theorem closed_eq (hm : Mailed b current waiting h) : h.link.commands.closed = h.link.loop.ended := by
  cases he : h.link.loop.ended with
  | false => exact (hm.running he).1
  | true => exact (hm.ended he).1

/-- A send that has not been written yet is from a call that was made. -/
theorem made (hm : Mailed b current waiting h) (hs : s ∈ current ++ waiting) : s.caller < h.made := by
  refine hm.callers s (hm.called s ?_)
  rw [hm.queued, hm.taken, List.append_assoc]
  exact List.mem_append_right _ hs

/-- It is not among those that have been written. -/
theorem unwritten (hm : Mailed b current waiting h) (hs : s ∈ current ++ waiting) : s ∉ b.written := by
  have hd := hm.distinct
  rw [hm.queued, hm.taken, List.append_assoc] at hd
  intro hw
  exact (List.nodup_append.mp hd).2.2 s hw s hs rfl

/-- It is not from a call that does not wait for its frame. -/
theorem free (hm : Mailed b current waiting h) (hc : c ∈ h.calls) (hw : c.point.writes = false)
    (he : h.link.loop.ended = false) : ∀ s ∈ current ++ waiting, s.caller ≠ c.id := by
  intro s hs hid
  have := (hm.pending he s hs).2 c hc hid.symm
  rw [hw] at this
  cases this

theorem not_mem_called (hm : Mailed b current waiting h) (hs : s.number = b.called.length) : s ∉ b.called := by
  intro hmem
  have hnum : s.number ∈ b.called.map Send.number := List.mem_map_of_mem hmem
  rw [hm.numbers, List.mem_range, hs] at hnum
  exact Nat.lt_irrefl _ hnum

/-- Calls go on, and may call sends, but none waits for a frame since then. -/
theorem carry (hm : Mailed b current waiting h) (hs : h.SameStream h') {called : List Send}
    (hnumbers : called.map Send.number = List.range called.length) (hcallers : ∀ s ∈ called, s.caller < h'.made)
    (hsub : b.called ⊆ called)
    (hq : ∃ xs, h'.link.commands.queue = h.link.commands.queue ++ xs ∧
      ∀ x ∈ xs, h.link.commands.closed = false ∧ x = .shutdown)
    (hlast : h.link.loop.ended = false → ∀ s ∈ current ++ waiting,
      { b with called := called }.last s.caller = b.last s.caller)
    (hcalls : ∀ x ∈ h'.calls, x ∈ h.calls ∧ { b with called := called }.last x.id = b.last x.id ∨
      x.point.writes = false ∧ (h.link.loop.ended = false → ∀ s ∈ current ++ waiting, s.caller ≠ x.id) ∧
      ∀ frame ticket limit purpose, x.point = .entering frame ticket limit purpose →
        ∃ s, { b with called := called }.last x.id = some s ∧ frame = s.frame ∧ s ∉ b.queued ∧
          s ∉ b.returned.map (·.1))
    (hr : ∀ r ∈ h'.link.receipts, ∃ x ∈ h'.calls, x.id = r.1 ∧ x.point.writes)
    (hlookup : ∀ x ∈ h'.calls, x.point.writes → h'.link.receipt? x.id = h.link.receipt? x.id) :
    Mailed { b with called := called } current waiting h' := by
  obtain ⟨xs, hq, hxs⟩ := hq
  have hended := hs.ended
  have houtcome : ∀ {s : Send} {r : Except LinkError Unit}, b.Outcome h.link.loop.ended s r →
      { b with called := called }.Outcome h.link.loop.ended s r := by
    intro s r ho
    exact ho.mono (List.Subset.refl _) fun he => ⟨he, rfl, rfl⟩
  refine ⟨hnumbers, hcallers, fun s h => hsub (hm.called s h), hm.distinct, hm.queued, hm.taken,
    hs.sent.trans hm.sent, ?_, fun he => ?_, fun he => ?_, fun he s h => ?_, fun x hx frame ticket limit purpose hp => ?_,
    fun x hx hw => ?_, hr, fun x hx => ?_, hm.once⟩
  · exact (hm.carries.keep hs).congr rfl
  · obtain ⟨hc, hw⟩ := hm.running (hended.symm.trans he)
    refine ⟨hs.closed.trans hc, ?_⟩
    have hnone : xs.filter LinkCommand.writes = [] := by
      refine List.filter_eq_nil_iff.mpr fun x hx => ?_
      rw [(hxs x hx).2]
      exact nofun
    rw [hq, List.filter_append, hnone, List.append_nil, hw]
  · obtain ⟨hc, hempty⟩ := hm.ended (hended.symm.trans he)
    refine ⟨hs.closed.trans hc, ?_⟩
    cases xs with
    | nil => rw [hq, hempty, List.nil_append]
    | cons x xs =>
      have := (hxs x List.mem_cons_self).1
      rw [hc] at this
      cases this
  · have he := hended.symm.trans he
    obtain ⟨hl, hw⟩ := hm.pending he s h
    refine ⟨(hlast he s h).trans hl, fun x hx hid => ?_⟩
    rcases hcalls x hx with ⟨hx, -⟩ | ⟨-, hno, -⟩
    · exact hw x hx hid
    · exact absurd hid.symm (hno he s h)
  · rcases hcalls x hx with ⟨hx, hl⟩ | ⟨-, -, hnew⟩
    · rw [hl]
      exact hm.entering x hx frame ticket limit purpose hp
    · exact hnew frame ticket limit purpose hp
  · rcases hcalls x hx with ⟨hx', hl⟩ | ⟨hno, -⟩
    · obtain ⟨s, hl', hq', hret, hstage⟩ := hm.writing x hx' hw
      refine ⟨s, hl.trans hl', hq', hret, ?_⟩
      rw [hlookup x hx hw, hended]
      exact hstage.imp_right fun ⟨r, hr, ho⟩ => ⟨r, hr, houtcome ho⟩
    · rw [hno] at hw
      cases hw
  · obtain ⟨hc, ho⟩ := hm.returned x hx
    rw [hended]
    exact ⟨hsub hc, houtcome ho⟩

/-- Calls go on, but none calls a send or waits for a frame since then. -/
theorem keep (hm : Mailed b current waiting h) (hs : h.SameStream h') (hmade : h.made ≤ h'.made)
    (hq : ∃ xs, h'.link.commands.queue = h.link.commands.queue ++ xs ∧
      ∀ x ∈ xs, h.link.commands.closed = false ∧ x = .shutdown)
    (hcalls : ∀ x ∈ h'.calls, x ∈ h.calls ∨ x.point.sends = false ∧
      (h.link.loop.ended = false → ∀ s ∈ current ++ waiting, s.caller ≠ x.id))
    (hr : ∀ r ∈ h'.link.receipts, ∃ x ∈ h'.calls, x.id = r.1 ∧ x.point.writes)
    (hlookup : ∀ x ∈ h'.calls, x.point.writes → h'.link.receipt? x.id = h.link.receipt? x.id) :
    Mailed b current waiting h' := by
  refine hm.carry hs hm.numbers (fun s h => Nat.lt_of_lt_of_le (hm.callers s h) hmade) (List.Subset.refl _) hq
    (fun _ _ _ => rfl) (fun x hx => ?_) hr hlookup
  rcases hcalls x hx with hx | ⟨hno, hfree⟩
  · exact .inl ⟨hx, rfl⟩
  · refine .inr ⟨Point.writes_of_sends hno, hfree, fun frame ticket limit purpose hp => ?_⟩
    rw [hp] at hno
    cases hno

/-- The call `c` goes on to where it has no send under way, or is gone. -/
theorem leave (hm : Mailed b current waiting h) (hs : h.SameStream h') (hmade : h'.made = h.made)
    (hq : ∃ xs, h'.link.commands.queue = h.link.commands.queue ++ xs ∧
      ∀ x ∈ xs, h.link.commands.closed = false ∧ x = .shutdown)
    (hcalls : ∀ x ∈ h'.calls, x ∈ h.calls ∧ x.id ≠ c.id ∨ x.id = c.id ∧ x.point.sends = false ∧
      (h.link.loop.ended = false → ∀ s ∈ current ++ waiting, s.caller ≠ c.id))
    (hothers : ∀ x ∈ h.calls, x.id ≠ c.id → x ∈ h'.calls)
    (hr : ∀ r ∈ h'.link.receipts, r ∈ h.link.receipts ∧ r.1 ≠ c.id)
    (hlookup : ∀ j, j ≠ c.id → h'.link.receipt? j = h.link.receipt? j) : Mailed b current waiting h' := by
  refine hm.keep hs (Nat.le_of_eq hmade.symm) hq (fun x hx => ?_) (fun r hmem => ?_) (fun x hx hw => ?_)
  · rcases hcalls x hx with ⟨hx, -⟩ | ⟨hid, hno, hfree⟩
    · exact .inl hx
    · rw [hid]
      exact .inr ⟨hno, hfree⟩
  · obtain ⟨hmem, hne⟩ := hr r hmem
    obtain ⟨x, hx, hid, hw⟩ := hm.receipts r hmem
    exact ⟨x, hothers x hx (by rw [hid]; exact hne), hid, hw⟩
  · rcases hcalls x hx with ⟨-, hne⟩ | ⟨-, hno, -⟩
    · exact hlookup _ hne
    · rw [Point.writes_of_sends hno] at hw
      cases hw

/-! ## Moves of calls -/

section Move

variable {m : Move} (hn : h.Numbered) (hu : h.Unstarted) (hc : c ∈ h.calls) (hmove : CallMove h c c.point m)
  (hl : h.Leaves c m h')

include hu hmove hl in
/-- Only a call that goes on to wait for its frame has put it into the command queue. -/
theorem noFrame (hno : ∀ ticket limit purpose, m.fate ≠ .goes (.writing ticket limit purpose) false) :
    ∃ xs, h'.link.commands.queue = h.link.commands.queue ++ xs ∧
      ∀ x ∈ xs, h.link.commands.closed = false ∧ x = .shutdown := by
  have hqueue : h'.link.commands.queue = m.link.commands.queue := by rw [hl.link, Move.linkAfter_queue]
  rcases hmove.queue hu with ⟨xs, hxs, hshut⟩ | ⟨frame, ticket, limit, purpose, -, hg, -⟩
  · obtain ⟨ys, hys, hsends⟩ := (hl.edits hu hmove).reach.queue
    obtain rfl : xs = ys := List.append_cancel_left (hxs.symm.trans (hqueue.symm.trans hys))
    exact ⟨xs, hys, fun x hx => ⟨(hsends x hx).1, hshut x hx⟩⟩
  · exact absurd hg (hno _ _ _)

include hn hc hl in
theorem mem_after {x : Call} (hx : x ∈ h'.calls) : x ∈ h.calls ∧ x.id ≠ c.id ∨
    (∃ p keeps, m.fate = .goes p keeps ∧ x = { c with point := p, holds := keeps || c.holds }) ∨
      m.fate = .stays ∧ x = c := hn.mem_callsAfter hc (hl.calls ▸ hx)

include hn hc hl in
theorem mem_after_goes {p : Point} {keeps : Bool} (hf : m.fate = .goes p keeps) {x : Call} (hx : x ∈ h'.calls) :
    x ∈ h.calls ∧ x.id ≠ c.id ∨ x = { c with point := p, holds := keeps || c.holds } := by
  rcases mem_after hn hc hl hx with hx | ⟨p', keeps', hgo, rfl⟩ | ⟨hstays, -⟩
  · exact .inl hx
  · rw [hf] at hgo
    cases hgo
    exact .inr rfl
  · rw [hf] at hstays
    cases hstays

include hl in
theorem mem_after_of_ne {x : Call} (hx : x ∈ h.calls) (hne : x.id ≠ c.id) : x ∈ h'.calls := by
  rw [hl.calls]
  exact Move.mem_callsAfter_of_ne hx hne

include hn hc in
/-- Who waits for a frame is another call. -/
theorem receipts_ne (hm : Mailed b current waiting h) (hw : c.point.writes = false) :
    ∀ r ∈ h.link.receipts, r.1 ≠ c.id := by
  intro r hr hid
  obtain ⟨x, hx, hxid, hxw⟩ := hm.receipts r hr
  obtain rfl := hn.eq_of_id hx hc (hxid.trans hid)
  rw [hw] at hxw
  cases hxw

include hn hu hc hmove hl in
/-- The call has no send under way after the move. -/
theorem go (hm : Mailed b current waiting h) (hf : m.fate ≠ .stays)
    (hg : ∀ p keeps, m.fate = .goes p keeps → p.sends = false) (hr : ∀ r ∈ h'.link.receipts, r.1 ≠ c.id)
    (hfree : h.link.loop.ended = false → ∀ s ∈ current ++ waiting, s.caller ≠ c.id) : Mailed b current waiting h' := by
  have he := hl.edits hu hmove
  refine hm.leave (hl.sameStream hu hmove) hl.made (noFrame hu hmove hl fun _ _ _ hgo => ?_) (fun x hx => ?_)
    (fun x => mem_after_of_ne hl) (fun r hmem => ⟨he.reach.receipts r hmem, hr r hmem⟩) fun j hj => he.receipt? hj
  · cases hg _ _ hgo
  · rcases mem_after hn hc hl hx with hx | ⟨p, keeps, hgo, rfl⟩ | ⟨hstays, -⟩
    · exact .inl hx
    · exact .inr ⟨rfl, hg _ _ hgo, hfree⟩
    · exact absurd hstays hf

include hn hu hc hmove hl in
/-- The call waits on. -/
theorem stay (hm : Mailed b current waiting h) (hw : c.point.writes = false) (hf : m.fate = .stays) :
    Mailed b current waiting h' := by
  have he := hl.edits hu hmove
  have hcalls : h'.calls = h.calls := by rw [hl.calls, Move.callsAfter, hf]
  refine hm.keep (hl.sameStream hu hmove) (Nat.le_of_eq hl.made.symm) (noFrame hu hmove hl fun _ _ _ hgo => ?_)
    (fun x hx => .inl (hcalls ▸ hx)) (fun r hr => ?_) fun x hx hxw => he.receipt? fun hid => ?_
  · rw [hf] at hgo
    cases hgo
  · rw [hcalls]
    exact hm.receipts r (he.reach.receipts r hr)
  · rw [hcalls] at hx
    obtain rfl := hn.eq_of_id hx hc hid
    rw [hw] at hxw
    cases hxw

include hn hu hc hmove hl in
/-- A send is called. -/
theorem post (hm : Mailed b current waiting h) (hs : c.point.sends = false) {p : Packet} {ticket : Option Ticket}
    {limit : Option Nat} {purpose : Purpose} {keeps : Bool}
    (hf : m.fate = .goes (.entering (frameOf p) ticket limit purpose) keeps) :
    Mailed (b.record (.called c.id p)) current waiting h' := by
  have he := hl.edits hu hmove
  have hsame := hl.sameStream hu hmove
  have hw := Point.writes_of_sends hs
  have hlast : ∀ id, id ≠ c.id → (b.record (.called c.id p)).last id = b.last id := by
    intro id hid
    rw [Outbox.last_called, if_neg hid.symm]
  have hfree := hm.free hc hw
  refine hm.carry hsame ?_ (fun s hs => ?_) (List.subset_append_left _ _)
    (noFrame hu hmove hl fun _ _ _ hgo => by rw [hf] at hgo; cases hgo)
    (fun he s hs => hlast _ (hfree he s hs)) (fun x hx => ?_) (fun r hr => ?_) fun x hx hxw => ?_
  · rw [List.map_append, hm.numbers, List.length_append, List.length_singleton, List.range_succ]
    rfl
  · rw [hl.made]
    rcases List.mem_append.mp hs with hs | hs
    · exact hm.callers s hs
    · obtain rfl := List.mem_singleton.mp hs
      exact hn.made c hc
  · rcases mem_after_goes hn hc hl hf hx with ⟨hx, hne⟩ | rfl
    · exact .inl ⟨hx, hlast _ hne⟩
    · refine .inr ⟨rfl, hfree, fun frame ticket limit purpose hp => ?_⟩
      cases hp
      have hnew := hm.not_mem_called (s := ⟨b.called.length, c.id, p⟩) rfl
      refine ⟨⟨b.called.length, c.id, p⟩, (Outbox.last_called _ _ _ _).trans (if_pos rfl), rfl,
        fun hq => hnew (hm.called _ hq), fun hr => ?_⟩
      obtain ⟨x, hx, he⟩ := List.mem_map.mp hr
      exact hnew (he ▸ (hm.returned x hx).1)
  · have hr := he.reach.receipts r hr
    obtain ⟨x, hx, hid, hxw⟩ := hm.receipts r hr
    exact ⟨x, mem_after_of_ne hl hx (by rw [hid]; exact receipts_ne hn hc hm hw r hr), hid, hxw⟩
  · rcases mem_after_goes hn hc hl hf hx with ⟨-, hne⟩ | rfl
    · exact he.receipt? hne
    · cases hxw

include hn hu hc hmove hl in
/-- The frame of a send gets a place in the command queue. -/
theorem enqueue (hm : Mailed b current waiting h) {frame : Bytes} {ticket : Option Ticket} {limit : Option Nat}
    {purpose : Purpose} (hp : c.point = .entering frame ticket limit purpose) {commands : Channel LinkCommand}
    (ho : h.link.commands.offer (.call c.id) (.write c.id frame) = (commands, .admitted))
    (hlink : m.link = { h.link with commands := commands }) (hf : m.fate = .goes (.writing ticket limit purpose) false) :
    ∃ s, Mailed (b.record (.queued c.id)) current (waiting ++ [s]) h' := by
  obtain ⟨s, hlast, hframe, hq, hret⟩ := hm.entering c hc frame ticket limit purpose hp
  obtain ⟨hqueue, hopen, hopen'⟩ := Channel.offer_admitted _ ho
  have hlink' : h'.link = { h.link with commands := commands } := by rw [hl.link, Move.linkAfter, hf, hlink]
  have hrun : h.link.loop.ended = false := hm.closed_eq.symm.trans hopen
  have hs : s.command = .write c.id frame := by rw [Send.command, Outbox.last_caller hlast, hframe]
  have hw : c.point.writes = false := by rw [hp]; rfl
  have hrecord : b.record (.queued c.id) = { b with queued := b.queued ++ [s] } := by
    rw [Outbox.record, hlast]
    rfl
  have hkept : ∀ {s' : Send} {r : Except LinkError Unit}, b.Outcome h.link.loop.ended s' r →
      { b with queued := b.queued ++ [s] }.Outcome h.link.loop.ended s' r := by
    intro s' r ho
    exact ho.mono (List.Subset.refl _) fun he => ⟨he, rfl, rfl⟩
  have hnone := receipts_ne hn hc hm hw
  refine ⟨s, ?_⟩
  rw [hrecord]
  refine { hm with
    callers := by rw [hl.made]; exact hm.callers
    called := fun x hx => ?_
    distinct := ?_
    queued := by rw [hm.queued, List.append_assoc]
    sent := by rw [hlink']; exact hm.sent
    carries := ?_
    running := fun _ => ?_
    ended := fun he => ?_
    pending := fun he x hx => ?_
    entering := fun x hx frame' ticket' limit' purpose' hp' => ?_
    writing := fun x hx hxw => ?_
    receipts := fun r hr => ?_
    returned := ?_ }
  · rcases List.mem_append.mp hx with hx | hx
    · exact hm.called x hx
    · obtain rfl := List.mem_singleton.mp hx
      exact Outbox.last_mem hlast
  · refine List.nodup_append.mpr ⟨hm.distinct, List.nodup_singleton _, fun x hx y hy he => hq ?_⟩
    obtain rfl := List.mem_singleton.mp hy
    rw [← he]
    exact hx
  · exact (hm.carries.keep (hl.sameStream hu hmove)).congr rfl
  · rw [hlink']
    refine ⟨hopen', ?_⟩
    rw [hqueue, List.filter_append, (hm.running hrun).2, List.map_append, List.map_singleton, hs]
    rfl
  · rw [hlink'] at he
    rw [hrun] at he
    cases he
  · rw [← List.append_assoc] at hx
    rcases List.mem_append.mp hx with hx | hx
    · obtain ⟨hl', hwrites⟩ := hm.pending hrun x hx
      refine ⟨hl', fun y hy hid => ?_⟩
      rcases mem_after_goes hn hc hl hf hy with ⟨hy, -⟩ | rfl
      · exact hwrites y hy hid
      · rfl
    · obtain rfl := List.mem_singleton.mp hx
      have hid := Outbox.last_caller hlast
      refine ⟨by rw [hid]; exact hlast, fun y hy hyid => ?_⟩
      rcases mem_after_goes hn hc hl hf hy with ⟨-, hne⟩ | rfl
      · exact absurd (hyid.trans hid) hne
      · rfl
  · rcases mem_after_goes hn hc hl hf hx with ⟨hx, hne⟩ | rfl
    · obtain ⟨s', hlast', hframe', hq', hret'⟩ := hm.entering x hx frame' ticket' limit' purpose' hp'
      refine ⟨s', hlast', hframe', fun h => ?_, hret'⟩
      rcases List.mem_append.mp h with h | h
      · exact hq' h
      · -- the new one is from another call
        obtain rfl := List.mem_singleton.mp h
        exact hne ((Outbox.last_caller hlast').symm.trans (Outbox.last_caller hlast))
    · cases hp'
  · rw [hlink']
    rcases mem_after_goes hn hc hl hf hx with ⟨hx, hne⟩ | rfl
    · obtain ⟨s', hlast', hq', hret', hstage⟩ := hm.writing x hx hxw
      refine ⟨s', hlast', List.mem_append_left _ hq', hret', ?_⟩
      rcases hstage with ⟨he, hr, hs'⟩ | ⟨r, hr, ho⟩
      · rw [← List.append_assoc]
        exact .inl ⟨he, hr, List.mem_append_left _ hs'⟩
      · exact .inr ⟨r, hr, hkept ho⟩
    · refine ⟨s, hlast, List.mem_concat_self, hret, .inl ⟨hrun, ?_, ?_⟩⟩
      · exact Link.receipt?_none hnone
      · rw [← List.append_assoc]
        exact List.mem_concat_self
  · rw [hlink'] at hr
    obtain ⟨x, hx, hid, hxw⟩ := hm.receipts r hr
    exact ⟨x, mem_after_of_ne hl hx (by rw [hid]; exact hnone r hr), hid, hxw⟩
  · rw [hlink']
    exact fun x hx => (hm.returned x hx).imp_right hkept

include hn hu hc hmove hl in
/-- A send that returns has not done so before. Its frame is no more on its way, and no report is left for it. -/
theorem own (hm : Mailed b current waiting h) (hs : c.point.sends) {r : Except LinkError Unit}
    (hr : h.sendResult c = some r) : ∃ s, b.last c.id = some s ∧ s ∉ b.returned.map (·.1) ∧
      b.Outcome h.link.loop.ended s r ∧ (h.link.loop.ended = false → ∀ s ∈ current ++ waiting, s.caller ≠ c.id) ∧
      ∀ r ∈ h'.link.receipts, r.1 ≠ c.id := by
  have he := hl.edits hu hmove
  cases hp : c.point with
  | entering frame ticket limit purpose =>
    have hw : c.point.writes = false := by rw [hp]; rfl
    obtain ⟨s, hlast, -, hq, hret⟩ := hm.entering c hc frame ticket limit purpose hp
    -- only a closed queue refuses the frame
    have hrefused : h.link.commands.closed = true ∧ r = .error h.link.closedError := by
      unfold Host.sendResult at hr
      rw [hp] at hr
      dsimp only at hr
      split at hr
      · rename_i ho
        exact ⟨(Channel.offer_refused _ (Prod.ext rfl ho)).1, (Option.some.inj hr).symm⟩
      · cases hr
    obtain ⟨hclosed, rfl⟩ := hrefused
    have hend : h.link.loop.ended = true := hm.closed_eq.symm.trans hclosed
    refine ⟨s, hlast, hret, .refused _ hend fun ht => hq ?_, fun hrun => ?_, fun x hx => ?_⟩
    · rw [hm.queued]
      exact List.mem_append_left _ ht
    · rw [hend] at hrun
      cases hrun
    · exact receipts_ne hn hc hm hw x (he.reach.receipts x hx)
  | writing ticket limit purpose =>
    obtain ⟨s, hlast, -, hret, hstage⟩ := hm.writing c hc (by rw [hp]; rfl)
    have hr : h.link.receipt? c.id = some r := by
      unfold Host.sendResult at hr
      rwa [hp] at hr
    obtain ⟨r', hr', ho⟩ := hstage.resolve_left fun ⟨_, hno, _⟩ => by rw [hr] at hno; cases hno
    obtain rfl : r' = r := Option.some.inj (hr'.symm.trans hr)
    refine ⟨s, hlast, hret, ho, fun hrun s' hs' hid => ?_, fun x hx => ?_⟩
    · have hsame := (hm.pending hrun s' hs').1
      rw [hid, hlast] at hsame
      obtain rfl := Option.some.inj hsame
      cases ho with
      | written hw => exact hm.unwritten hs' hw
      | failed text hend | refused reason hend =>
        rw [hrun] at hend
        cases hend
    · rw [hp] at hmove
      rw [hl.link] at hx
      exact hmove.drops x ((m.linkAfter_edits c).reach.receipts x hx)
  | _ => rw [hp] at hs; cases hs

include hn hu hc hmove hl in
/-- A send returns. -/
theorem answer (hm : Mailed b current waiting h) (hs : c.point.sends) {r : Except LinkError Unit}
    (hr : h.sendResult c = some r) (hf : m.fate ≠ .stays) (hg : ∀ p keeps, m.fate = .goes p keeps → p.sends = false) :
    Mailed (b.record (.returned c.id r)) current waiting h' := by
  obtain ⟨s, hlast, hret, ho, hfree, hdrops⟩ := own hn hu hc hmove hl hm hs hr
  have hm' := go hn hu hc hmove hl hm hf hg hdrops hfree
  have hended := (hl.sameStream hu hmove).ended
  have hrecord : b.record (.returned c.id r) = { b with returned := b.returned ++ [(s, r)] } := by
    rw [Outbox.record, hlast]
    rfl
  -- a call that sends after the move has another send
  have hother : ∀ x ∈ h'.calls, x.point.sends → ∀ s', b.last x.id = some s' → s' ≠ s := by
    intro x hx hxs s' hs' he
    have hid : x.id = c.id := by rw [← Outbox.last_caller hs', he, Outbox.last_caller hlast]
    rcases mem_after hn hc hl hx with ⟨-, hne⟩ | ⟨p, keeps, hgo, rfl⟩ | ⟨hstays, -⟩
    · exact hne hid
    · rw [hg _ _ hgo] at hxs
      cases hxs
    · exact hf hstays
  have hkept : ∀ {s' : Send} {r' : Except LinkError Unit}, b.Outcome h'.link.loop.ended s' r' →
      { b with returned := b.returned ++ [(s, r)] }.Outcome h'.link.loop.ended s' r' := by
    intro s' r' ho
    exact ho.mono (List.Subset.refl _) fun he => ⟨he, rfl, rfl⟩
  have hnew : ∀ {s' : Send}, s' ≠ s → s' ∉ b.returned.map (·.1) → s' ∉ (b.returned ++ [(s, r)]).map (·.1) := by
    intro s' hne hret' hmem
    rw [List.map_append, List.mem_append] at hmem
    exact hmem.elim hret' fun h => hne (List.mem_singleton.mp h)
  rw [hrecord]
  refine { hm' with
    carries := hm'.carries.congr rfl
    entering := fun x hx frame ticket limit purpose hp => ?_
    writing := fun x hx hxw => ?_
    returned := fun x hx => ?_
    once := ?_ }
  · obtain ⟨s', hlast', hframe, hq, hret'⟩ := hm'.entering x hx frame ticket limit purpose hp
    exact ⟨s', hlast', hframe, hq, hnew (hother x hx (by rw [hp]; rfl) s' hlast') hret'⟩
  · obtain ⟨s', hlast', hq, hret', hstage⟩ := hm'.writing x hx hxw
    have hxs : x.point.sends := by cases hp : x.point <;> rw [hp] at hxw <;> first | rfl | cases hxw
    exact ⟨s', hlast', hq, hnew (hother x hx hxs s' hlast') hret', hstage.imp_right fun ⟨r, hr, ho⟩ => ⟨r, hr, hkept ho⟩⟩
  · rcases List.mem_append.mp hx with hx | hx
    · exact (hm'.returned x hx).imp_right hkept
    · obtain rfl := List.mem_singleton.mp hx
      rw [hended]
      exact ⟨Outbox.last_mem hlast, ho.mono (List.Subset.refl _) fun he => ⟨he, rfl, rfl⟩⟩
  · rw [List.map_append, List.map_singleton]
    refine List.nodup_append.mpr ⟨hm'.once, List.nodup_singleton _, fun x hx y hy he => hret ?_⟩
    obtain rfl : y = s := List.mem_singleton.mp hy
    rw [← he]
    exact hx

end Move

/-- **A step of a call.** -/
theorem call {m : Move} (hm : Mailed b current waiting h) (hn : h.Numbered) (hu : h.Unstarted) (hc : c ∈ h.calls)
    (hmove : CallMove h c c.point m) (hl : h.Leaves c m h') :
    ∃ waiting', Mailed ((h.callEvent c (m.pointAfter c)).toList.foldl Outbox.record b) current waiting' h' := by
  have hsend := hmove.sends
  generalize h.callEvent c (m.pointAfter c) = event at hsend ⊢
  cases hsend with
  | calls hp hs hf => exact ⟨_, post hn hu hc hmove hl hm hs hf⟩
  | queues hp ho hlink hf =>
    obtain ⟨s, hm'⟩ := enqueue hn hu hc hmove hl hm hp ho hlink hf
    exact ⟨_, hm'⟩
  | returns hs hr hf hg => exact ⟨_, answer hn hu hc hmove hl hm hs hr hf hg⟩
  | other hr hw hf =>
    rcases hf with hf | ⟨hs, hg⟩
    · exact ⟨_, stay hn hu hc hmove hl hm hw hf⟩
    · by_cases hf : m.fate = .stays
      · exact ⟨_, stay hn hu hc hmove hl hm hw hf⟩
      · refine ⟨_, go hn hu hc hmove hl hm hf hg (fun r hr => ?_) (hm.free hc hw)⟩
        exact receipts_ne hn hc hm hw r ((hl.edits hu hmove).reach.receipts r hr)

end Mailed
end TwinLink
