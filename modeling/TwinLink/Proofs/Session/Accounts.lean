import Mathlib.Data.List.Count
import TwinLink.Proofs.Link.Shares
import TwinLink.Proofs.Session.Retries

/-!
# The accounts of a handshake

Of all that is done with a session only the steps of the start count for its handshake. They keep an account of the
requests that were made, of those that are written, and of the waits for their replies.

* `Setup.queued_inOrder`, `Setup.unsent_run` : the sends of one call, in their order;
* `StartTurn`, `Host.startTurn` : an action is a step of the start, or leaves the handshake alone;
* `requestsOf`, `StartRecord.own`, `Host.tally` : the requests of a handshake, those of a start, and their numbers;
* `Accounts`, `Accounts.steps`, `Host.accounts_run` : how these belong together, which every action keeps.
-/

namespace TwinLink

variable {h h' : Host} {c : Call} {m : Move}

/-! ## Sends of a call -/

/-- A frame that gets a place in the command queue is that of a call that waits for one. -/
theorem Moment.sendEvent_queued {mo : Moment} {id : Nat} (he : mo.sendEvent = some (.queued id)) :
    ∃ c ∈ mo.host.calls, c.id = id ∧ ∃ frame ticket limit purpose, c.point = .entering frame ticket limit purpose := by
  unfold sendEvent Host.sendEvent at he
  split at he
  · obtain ⟨c, hc, he⟩ := Option.bind_eq_some_iff.mp he
    unfold Host.callEvent at he
    split at he
    · rename_i hpt _
      cases he
      exact ⟨c, Host.call?_mem hc, rfl, _, _, _, _, hpt⟩
    · obtain ⟨p, -, he⟩ := Option.map_eq_some_iff.mp he
      cases he
    · obtain ⟨r, -, he⟩ := Option.map_eq_some_iff.mp he
      cases he
  · unfold LoopPoint.event at he
    split at he <;> cases he
  · cases he

/-- A send is called by a call that takes a step, and it then waits for a place in the command queue. -/
theorem Moment.sendEvent_called {mo : Moment} {id : Nat} {p : Packet} (he : mo.sendEvent = some (.called id p)) :
    ∃ c, mo.mover = some c ∧ c.id = id ∧ c.point.outgoing = some p ∧
      ∃ frame ticket limit purpose,
        (mo.after.call? id).map (·.point) = some (.entering frame ticket limit purpose) := by
  unfold sendEvent Host.sendEvent at he
  split at he
  · rename_i id' i ha
    obtain ⟨c, hc, he⟩ := Option.bind_eq_some_iff.mp he
    have hmover : mo.mover = some c := by
      unfold mover
      rw [ha]
      exact hc
    unfold Host.callEvent at he
    split at he
    · cases he
    · rename_i frame ticket limit purpose hafter
      obtain ⟨p, hp, he⟩ := Option.map_eq_some_iff.mp he
      cases he
      exact ⟨c, hmover, rfl, hp, frame, ticket, limit, purpose, by rw [Host.call?_id hc]; exact hafter⟩
    · obtain ⟨r, -, he⟩ := Option.map_eq_some_iff.mp he
      cases he
  · unfold LoopPoint.event at he
    split at he <;> cases he
  · cases he

/-- **The frames of a call are queued in the order in which it sends them.** -/
theorem Setup.queued_inOrder (setup : Setup) (as : List Action) (id : Nat) :
    ((setup.host.outbox as).queued.filter (·.caller == id)).Sublist ((setup.host.outbox as).sendsOf id) := by
  induction as using List.reverseRecOn with
  | nil => exact .slnil
  | append_singleton as a ih =>
    rw [Host.outbox_concat]
    cases he : Moment.sendEvent ⟨setup.host.run as, a⟩ with
    | none => exact ih
    | some e =>
      cases e with
      | called caller p =>
        show List.Sublist _ ((_ ++ [_]).filter _)
        rw [List.filter_append]
        exact ih.trans (List.sublist_append_left _ _)
      | queued caller =>
        obtain ⟨current, waiting, hmail⟩ := setup.mailed_run as
        obtain ⟨c, hc, rfl, frame, ticket, limit, purpose, hpt⟩ := Moment.sendEvent_queued he
        obtain ⟨s, hlast, -, hnew, -⟩ := hmail.entering c hc frame ticket limit purpose hpt
        have hcaller : s.caller = c.id := Outbox.last_caller hlast
        show List.Sublist ((_ ++ ((setup.host.outbox as).last c.id).toList).filter _)
          ((setup.host.outbox as).sendsOf id)
        rw [hlast, List.filter_append, Option.toList_some]
        by_cases hid : c.id = id
        · -- the send is the last of its call, and was not queued before
          subst hid
          rw [Outbox.last_eq] at hlast
          obtain ⟨xs, hxs⟩ := List.getLast?_eq_some_iff.mp hlast
          rw [hxs] at ih ⊢
          rw [List.filter_cons_of_pos (by simpa using hcaller), List.filter_nil]
          refine List.Sublist.append_right ?_ _
          obtain ⟨ys, zs, hyz, hys, hzs⟩ := List.sublist_append_iff.mp ih
          rcases List.sublist_singleton.mp hzs with rfl | rfl
          · rwa [hyz, List.append_nil]
          · have hmem : s ∈ (setup.host.outbox as).queued.filter (·.caller == c.id) := hyz ▸ List.mem_concat_self
            exact absurd (List.mem_filter.mp hmem).1 hnew
        · rw [List.filter_cons_of_neg (by simpa [hcaller] using hid), List.filter_nil, List.append_nil]
          exact ih
      | taken | written | returned => exact ih

/-- What an event adds to the sends that were called. -/
theorem Outbox.called_of_ne {b : Outbox} {e : SendEvent} (he : ∀ id p, e ≠ .called id p) :
    (b.record e).called = b.called := by
  cases e with
  | called id p => exact absurd rfl (he id p)
  | queued | taken | written | returned => rfl

/-- A call that is there after an action was there before, or is new, or is the one that took a step. -/
theorem Moment.mem_after {mo : Moment} (ht : mo.host.Tidy) {x : Call} (hx : x ∈ mo.after.calls) :
    x ∈ mo.host.calls ∨ x.id = mo.host.made ∨ ∃ c, mo.mover = some c ∧ x.id = c.id ∧ ∀ r, x.point ≠ .begun r := by
  obtain ⟨h, a⟩ := mo
  have hn := ht.numbered
  have hacts : Acts h a (Moment.mk h a).after := Host.apply_acts ht.claimed a
  generalize (Moment.mk h a).after = h' at hacts hx
  cases hacts with
  | loop i hm ht => exact .inl (ht.calls ▸ hx)
  | dispatcher i hm ht => exact .inl (ht.calls ▸ hx)
  | call i hc hm hl =>
    rcases hn.mem_callsAfter (Host.call?_mem hc) (hl.calls ▸ hx) with ⟨hx, -⟩ | ⟨p, keeps, hf, rfl⟩ | ⟨-, rfl⟩
    · exact .inl hx
    · exact .inr (.inr ⟨_, hc, rfl, (hm.plan hf).1⟩)
    · exact .inl (Host.call?_mem hc)
  | make r hm ready =>
    rcases List.mem_append.mp hx with hx | hx
    · exact .inl hx
    · obtain rfl := List.mem_singleton.mp hx
      exact .inr (.inl rfl)
  | abandon hc released hr ready => exact .inl (List.mem_filter.mp hx).1
  | _ => exact .inl hx

/-- **A call that is about to begin has sent nothing.** -/
theorem Setup.unsent_run (setup : Setup) (as : List Action) : ∀ c ∈ (setup.host.run as).calls,
    ∀ r, c.point = .begun r → ∀ s ∈ (setup.host.outbox as).called, s.caller ≠ c.id := by
  induction as using List.reverseRecOn with
  | nil =>
    intro c hc
    have hnone : (setup.host.run []).calls = [] := by cases setup <;> rfl
    rw [hnone] at hc
    cases hc
  | append_singleton as a ih =>
    intro c hc r hpt
    have hn := setup.numbered_run as
    have hn' := setup.numbered_run (as ++ [a])
    have hafter : (Moment.mk (setup.host.run as) a).after = setup.host.run (as ++ [a]) := (Host.run_concat _ as a).symm
    -- what was sent before is not by this call
    have hold : ∀ s ∈ (setup.host.outbox as).called, s.caller ≠ c.id := by
      rcases Moment.mem_after (setup.tidy_run as) (hafter ▸ hc) with hc | hid | ⟨c', -, -, hno⟩
      · exact ih c hc r hpt
      · obtain ⟨current, waiting, hmail⟩ := setup.mailed_run as
        exact fun s hs => hid ▸ Nat.ne_of_lt (hmail.callers s hs)
      · exact absurd hpt (hno r)
    rw [Host.outbox_concat]
    cases he : Moment.sendEvent ⟨setup.host.run as, a⟩ with
    | none => exact hold
    | some e =>
      cases e with
      | called id p =>
        intro s hs
        rcases List.mem_append.mp hs with hs | hs
        · exact hold s hs
        · obtain rfl := List.mem_singleton.mp hs
          obtain ⟨-, -, -, -, frame, ticket, limit, purpose, henters⟩ := Moment.sendEvent_called he
          rintro rfl
          rw [hafter, hn'.call?_of_mem hc, Option.map_some, hpt] at henters
          cases henters
      | queued | taken | written | returned => exact hold

/-! ## Who is in the handshake -/

/-- A call outside the handshake, which does not take the byte stream either, is in none of its phases. -/
theorem Host.no_stage_of_phase (hq : c.point.phase? = none)
    (hno : c.point = .begun .start → h.session.phase = .faulted ∨ h.session.portTaken) :
    h.stage? c = none ∧ h.breach c = none ∧ (h.overdue c).bind Purpose.stage? = none := by
  have hn : h.nextRequest c = none := by
    unfold nextRequest
    split
    · exact if_pos (hno ‹_›)
    · rename_i hpt
      rw [hpt] at hq
      cases hq
    · rename_i hpt
      rw [hpt] at hq
      cases hq
    · rfl
  rw [stage?, breach, overdue, hn]
  generalize c.point = q at hq
  cases q with
  | entering frame ticket limit purpose | writing ticket limit purpose =>
    cases purpose with
    | handshake => cases hq
    | direct | operation => exact ⟨rfl, rfl, rfl⟩
  | awaiting ticket limit alarm purpose =>
    cases purpose with
    | handshake => cases hq
    | direct | operation =>
      refine ⟨rfl, rfl, ?_⟩
      cases alarm with
      | none => rfl
      | some alarm =>
        dsimp only
        split <;> rfl
  | _ => exact ⟨rfl, rfl, rfl⟩

/-- A call that has to wait is in no danger. -/
theorem Host.breach_waits (hw : h.pointStep c = none) : h.breach c = none := by
  have hresult := sendResult_waits hw
  have hn : h.nextRequest c = none := by
    unfold nextRequest
    unfold pointStep at hw
    split
    · rename_i hpt
      rw [hpt] at hw
      cases hw
    · rename_i hpt
      rw [hpt] at hw
      exact if_neg fun ha => by simp [ha] at hw
    · rename_i hpt
      split
      · rename_i hd
        rw [hpt] at hw
        simp only [waitStep, hd] at hw
        cases hw
      · rfl
    · rfl
  unfold breach
  rw [hn, hresult]
  unfold pointStep at hw
  split
  · cases ‹none = some _›
  · rfl
  · rfl
  · rename_i hpt
    split
    · rename_i hd
      rw [hpt] at hw
      simp only [waitStep, hd] at hw
      cases hw
    · rename_i hd
      rw [hpt] at hw
      simp only [waitStep, hd] at hw
      cases hw
    · rfl
  · rfl

/-- What an action does to a session, seen from its handshake: nothing, or it is a step of the start that has taken the
byte stream or takes it now. -/
inductive StartTurn (r : StartRecord) (mo : Moment) : Prop
  | aside (ht : mo.takesStream = none) (hx : mo.expires = none) (hb : mo.breach = none)
      (hf : ∀ stage e, ¬mo.FailsIn stage e) (hs : ∀ id p, mo.sendEvent = some (.called id p) → id ∉ r.takers)
      (hc : ∀ x ∈ mo.after.calls, x.id ∈ r.takers → x ∈ mo.host.calls)
  | steps {c : Call} {m : Move} (hc : mo.mover = some c) (hmem : c ∈ mo.host.calls)
      (hq : c.point.phase? ≠ none ∨ c.point = .begun .start ∧ mo.host.session.portTaken = false)
      (hm : CallMove mo.host c c.point m) (hl : mo.host.Leaves c m mo.after) (hs : SendMove mo.host c m mo.sendEvent)
      (hst : StartMove mo.host c m) (ht : (r.add mo).takers = [c.id])
      (hr : r.takers = [c.id] ∨ r.takers = [] ∧ c.point = .begun .start)

/-- A call that takes a step has to wait, and then nothing happens; or it moves, and does to its send what its move
does. -/
theorem Moment.mover_moves {mo : Moment} (hc : mo.mover = some c) (hn : mo.host.Numbered) : c ∈ mo.host.calls ∧
    ((mo.host.pointStep c = none ∧ mo.after = mo.host ∧ mo.sendEvent = none) ∨
      ∃ m, CallMove mo.host c c.point m ∧ mo.host.Leaves c m mo.after ∧ SendMove mo.host c m mo.sendEvent) := by
  obtain ⟨hmem, hacts⟩ := Moment.mover_acts hc
  obtain ⟨h, a⟩ := mo
  unfold mover at hc
  split at hc
  · rename_i id i ha
    obtain rfl : a = _ := ha
    refine ⟨hmem, hacts.imp (fun ⟨hw, hsame⟩ => ⟨hw, hsame, ?_⟩) fun ⟨m, hm, hl⟩ => ⟨m, hm, hl, ?_⟩⟩
    · have hr : h.Refuses (.advance (.call id) i) := by
        show (h.call? id).bind h.pointStep = none
        rw [hc]
        exact hw
      show h.sendEvent _ (Moment.mk h _).after = none
      rw [hsame]
      exact Host.sendEvent_refused hr
    · show SendMove h c m (h.sendEvent _ _)
      rw [Host.sendEvent_call i hc hl (hn.leaves hl)]
      exact hm.sends
  · cases hc

/-- A start that is in no phase of the handshake any more is about to end. -/
theorem StartsAt.shutting {r : StartRecord} {revision : Revision} {id : Nat} {q : Point}
    (hs : StartsAt r revision h id q) (hq : q.phase? = none) : ∃ answer, q = .shutting answer := by
  cases hs with
  | exchanges stage hp => rw [hq] at hp; cases hp
  | registers => cases hq
  | fails e => exact ⟨_, rfl⟩

/-- A start hands nothing to the link but while it exchanges packets with the device. -/
theorem Starting.outgoing {r : StartRecord} {config : SessionConfig} (hs : Starting r config h) (hc : c ∈ h.calls)
    (hid : c.id ∈ r.takers) (hq : c.point.phase? = none) : c.point.outgoing = none := by
  obtain ⟨answer, hpt⟩ := (hs.stands c hc hid).shutting hq
  rw [hpt]
  rfl

/-- What is done by others, or by a start that has to wait or is about to end, leaves the handshake alone. -/
theorem StartTurn.of_aside {r : StartRecord} {config : SessionConfig} {mo : Moment} (hs : Starting r config mo.host)
    (htidy : mo.host.Tidy) (ht : mo.takesStream = none)
    (hw : ∀ c, mo.mover = some c → mo.host.pointStep c = none ∧ mo.after = mo.host ∧ mo.sendEvent = none ∨
      c.point.phase? = none) : StartTurn r mo := by
  have hn := htidy.numbered
  have hout : ∀ c, mo.mover = some c → c.point.phase? = none → mo.host.stage? c = none ∧ mo.host.breach c = none ∧
      (mo.host.overdue c).bind Purpose.stage? = none := fun c hc hq =>
    Host.no_stage_of_phase hq (((Moment.takesStream_cases hc).resolve_left fun h => by rw [ht] at h; cases h.1).2)
  refine .aside ht ?_ ?_ (fun stage e ⟨c, hc, hstage, hpt⟩ => ?_) (fun id p he hid => ?_) fun x hx hid => ?_
  · cases hc : mo.mover with
    | none => rw [Moment.expires, Moment.overdue, hc]; rfl
    | some c =>
      rw [Moment.expires, Moment.overdue, hc, Option.bind_some]
      rcases hw c hc with ⟨hwait, -⟩ | hq
      · rw [Host.overdue_waits hwait]
        rfl
      · exact (hout c hc hq).2.2
  · cases hc : mo.mover with
    | none => rw [Moment.breach, hc]; rfl
    | some c =>
      rw [Moment.breach, hc, Option.bind_some]
      rcases hw c hc with ⟨hwait, -⟩ | hq
      · exact Host.breach_waits hwait
      · exact (hout c hc hq).2.1
  · have hq : c.point.phase? = none := by
      rcases hw c hc with ⟨-, hsame, -⟩ | hq
      · rw [hsame, hn.call?_of_mem (Moment.mover_acts hc).1] at hpt
        have hpt : c.point = _ := Option.some.inj hpt
        rw [hpt]
        rfl
      · exact hq
    rw [(hout c hc hq).1] at hstage
    cases hstage
  · obtain ⟨c, hc, rfl, hp, -⟩ := Moment.sendEvent_called he
    rcases hw c hc with ⟨-, -, hnone⟩ | hq
    · rw [he] at hnone
      cases hnone
    · rw [hs.outgoing (Moment.mover_acts hc).1 hid hq] at hp
      cases hp
  · rcases Moment.mem_after htidy hx with hx | hmade | ⟨c, hc, hxc, -⟩
    · exact hx
    · exact absurd (hs.made _ hid) (by rw [hmade]; exact Nat.lt_irrefl _)
    · obtain ⟨hmem, ⟨-, hsame⟩ | ⟨m, hm, hl⟩⟩ := Moment.mover_acts hc
      · rwa [← hsame]
      · rcases hw c hc with ⟨-, hsame, -⟩ | hq
        · rwa [← hsame]
        · obtain ⟨answer, hpt⟩ := (hs.stands c hmem (hxc ▸ hid)).shutting hq
          rw [hpt] at hm
          rcases hn.mem_callsAfter hmem (hl.calls ▸ hx) with ⟨hx, -⟩ | ⟨p, keeps, hf, -⟩ | ⟨-, rfl⟩
          · exact hx
          · cases hm <;> cases hf
          · exact hmem

namespace Host

variable (config : SessionConfig) (twin : Twin) (as : List Action) (a : Action)

/-- **Every action is a step of the start, or leaves the handshake alone.** -/
theorem startTurn : StartTurn ((ofSession config twin).startRecord as) ⟨(ofSession config twin).run as, a⟩ := by
  have hs := starting_run config twin as
  have htidy := (Setup.session config twin).tidy_run as
  cases hc : (Moment.mk ((ofSession config twin).run as) a).mover with
  | none =>
    have ht : (Moment.mk ((ofSession config twin).run as) a).takesStream = none := by rw [Moment.takesStream, hc]; rfl
    exact .of_aside hs htidy ht fun c h => by rw [hc] at h; cases h
  | some c =>
    obtain ⟨hmem, hidle | ⟨m, hm, hl, hsend⟩⟩ := Moment.mover_moves hc htidy.numbered
    · have ht := ((Moment.takesStream_cases hc).resolve_left fun h => (hearing_of_waits hidle.1).2 _ h.2.1).1
      refine .of_aside hs htidy ht fun c' h => .inl ?_
      rw [hc] at h
      cases h
      exact hidle
    · have hstart := fun hq => hm.starts hmem hq ((Setup.session config twin).candid_run as)
        (registered_run config twin as)
      rcases Moment.takesStream_cases hc with ⟨ht, hpt, hph, hport⟩ | ⟨ht, -⟩
      · have hnone := (hs.idle hport).1
        refine .steps hc hmem (.inr ⟨hpt, hport⟩) hm hl hsend (hstart (.inr ⟨hpt, hph, hport⟩)) ?_ (.inr ⟨hnone, hpt⟩)
        simp [StartRecord.add, ht, hnone]
      · by_cases hq : c.point.phase? = none
        · refine .of_aside hs htidy ht fun c' h => .inr ?_
          rw [hc] at h
          cases h
          exact hq
        · have htakers := hs.takers_eq (hs.ours c hmem (.inl hq))
          refine .steps hc hmem (.inl hq) hm hl hsend (hstart (.inl hq)) ?_ (.inl htakers)
          simp [StartRecord.add, ht, htakers]

end Host

/-! ## The requests of a run -/

/-- The requests of a handshake in their order, the first made `i` times and the second `j` times. -/
def requestsOf (i j : Nat) : List Packet :=
  List.replicate i (.bare Stage.reset.request) ++ List.replicate j (.bare Stage.describe.request)

namespace StartRecord

variable {r : StartRecord}

/-- The sends that are by the start that has taken the byte stream. -/
def own (r : StartRecord) (sends : List Send) : List Send := sends.filter (r.takers.contains ·.caller)

/-- The device has acknowledged the reset: a reply to the first request was matched, and the start has heard it. -/
def Acknowledged (r : StartRecord) : Prop :=
  ∃ id ∈ r.takers, ∃ w p, (id, Stage.reset, p) ∈ r.heard ∧ (w, p) ∈ r.served ∧
    p.type = PacketKind.resetResponse.code

theorem mem_own {sends : List Send} {s : Send} : s ∈ r.own sends ↔ s ∈ sends ∧ s.caller ∈ r.takers := by
  simp [own]

theorem Acknowledged.add (ha : r.Acknowledged) (mo : Moment) : (r.add mo).Acknowledged := by
  obtain ⟨id, hid, w, p, hh, hs, hp⟩ := ha
  exact ⟨id, List.mem_append_left _ hid, w, p, List.mem_append_left _ hh, List.mem_append_left _ hs, hp⟩

/-- A start that has reached its second request has had its first acknowledged. -/
theorem Reached.isAcknowledged {id : Nat} {next : Option Ticket} (hr : r.Reached id next .describe)
    (hid : id ∈ r.takers) : r.Acknowledged := by
  obtain ⟨w, p, early, late, hh, hs, hw, hp, -⟩ := hr
  exact ⟨id, hid, w, p, by rw [hh]; exact List.mem_singleton.mpr rfl, by rw [hs]; exact List.mem_append_left _ hw, hp⟩

end StartRecord

/-- The requests of the handshake that were made in a run, and the waits for their replies that timed out. -/
def Host.tally (start : Host) (as : List Action) : Tally where
  asked stage := (((start.startRecord as).own (start.outbox as).called).map (·.packet)).count (.bare stage.request)
  expired stage := ((start.moments as).filterMap Moment.expires).count stage

/-- A step of a start calls a send exactly if it makes a request. -/
theorem SendMove.asks {event : Option SendEvent} (hs : SendMove h c m event) (hm : StartMove h c m) :
    (∃ stage retries, h.nextRequest c = some (stage, retries) ∧ h.overdue c = none ∧ m.asks = some stage ∧
      event = some (.called c.id (.bare stage.request))) ∨
    m.asks = none ∧ ∀ id p, event ≠ some (.called id p) := by
  cases hs with
  | calls hp hsends hf =>
    cases hm with
    | asks hn hb ho hf' =>
      refine .inl ⟨_, _, hn, ho, by rw [Move.asks, hf']; rfl, ?_⟩
      rw [Option.some.inj (hp.symm.trans (Host.outgoing_of_nextRequest hn).1)]
    | goesOn hq hn hb ho hr hp' hp'' hno => exact absurd hf (hno _ _ _ _ _)
    | registers hq hp' => rcases hp' _ _ hf with ⟨_, _, _, he⟩ | ⟨_, he⟩ <;> cases he
    | pauses hq hn hb ho hlt hf' => rw [hf'] at hf; cases hf
    | givesUp hq hn hb ho hge hf' => rw [hf'] at hf; cases hf
    | breaks hb he hstage ho hf' => rw [hf'] at hf; cases hf
    | described hq hn hb ho hsends hf' => rw [hf'] at hf; cases hf
  | queues hp ho hl hf => exact .inr ⟨by rw [Move.asks, hf], fun _ _ h => by cases h⟩
  | returns hsends hr hf hg =>
    exact .inr ⟨Move.asks_of_not_entering fun _ _ _ _ _ h => (by cases hg _ _ h), fun _ _ h => by cases h⟩
  | other hr hw hf =>
    refine .inr ⟨Move.asks_of_not_entering fun _ _ _ _ _ h => ?_, fun _ _ h => by cases h⟩
    rcases hf with hf | ⟨-, hg⟩
    · rw [hf] at h
      cases h
    · cases hg _ _ h

/-- A call that makes a request of the handshake goes on to wait for a place in the command queue. -/
theorem Move.goes_of_asks {stage : Stage} (ha : m.asks = some stage) : ∃ frame ticket limit retries keeps,
    m.fate = .goes (.entering frame ticket limit (.handshake stage retries)) keeps := by
  unfold asks at ha
  split at ha
  · rename_i frame ticket limit purpose keeps hf
    cases purpose with
    | handshake stage' retries => cases ha; exact ⟨_, _, _, _, _, hf⟩
    | _ => cases ha
  · cases ha

theorem Host.sends_of_overdue {purpose : Purpose} (ho : h.overdue c = some purpose) : c.point.sends = false := by
  unfold overdue at ho
  split at ho
  · rename_i hpt
    rw [hpt]
    rfl
  · cases ho

/-- A send of a start that goes on with its handshake has succeeded. -/
theorem StartMove.returns_ok {p : Point} {r : Except LinkError Unit} (hm : StartMove h c m)
    (hsends : c.point.sends) (hr : h.sendResult c = some r) (hp : p ∈ m.pointAfter c) (hq : p.phase? ≠ none) :
    r = .ok () := by
  have hrest : c.point.sends = false → r = .ok () := fun h => by rw [h] at hsends; cases hsends
  cases hm with
  | asks hn hb ho hf => exact hrest (Host.outgoing_of_nextRequest hn).2
  | goesOn hq hn hb ho hok hp hp' hf => exact hok r hr
  | pauses hq hn hb ho hlt hf => exact hrest (Host.sends_of_overdue ho)
  | givesUp hq hn hb ho hge hf => exact hrest (Host.sends_of_overdue ho)
  | breaks hb he hs ho hf =>
    rw [Move.pointAfter, hf] at hp
    cases hp
    exact absurd rfl hq
  | described hq hn hb ho hs hf => exact hrest hs
  | registers hq hp => exact hrest (by rw [hq]; rfl)

/-- Where a call stands after its move. -/
theorem Host.Leaves.point_mem (hl : h.Leaves c m h') (hc : c ∈ h.calls) (hn' : h'.Numbered) {x : Call}
    (hx : x ∈ h'.calls) (hid : x.id = c.id) : x.point ∈ m.pointAfter c := by
  have hafter := hl.pointAfter hc hn'
  rw [← hid, hn'.call?_of_mem hx] at hafter
  exact hafter.symm

/-! ## The accounts -/

/-- The accounts of a handshake, `n` being how often a request may be repeated: the tally is in order and belongs to
where the start stands; what it has sent is the requests of the tally, all of it written but for what is under way; and
the second request comes after the first is acknowledged. -/
structure Accounts (n : Nat) (r : StartRecord) (b : Outbox) (t : Tally) (h : Host) : Prop where
  idle : r.takers = [] → ∀ stage, t.asked stage = 0 ∧ t.expired stage = 0
  sound : t.Sound n
  stands : ∀ c ∈ h.calls, c.id ∈ r.takers → t.At n c.point
  inOrder : (r.own b.called).map (·.packet) = requestsOf (t.asked .reset) (t.asked .describe)
  filed : ∀ c ∈ h.calls, c.id ∈ r.takers → c.point.phase? ≠ none → ∀ s ∈ r.own b.called,
    s ∈ b.written ∨ c.point.sends ∧ b.last c.id = some s
  acknowledged : t.asked .describe ≠ 0 → r.Acknowledged

namespace Accounts

variable {n : Nat} {r : StartRecord} {b : Outbox} {t : Tally} {mo : Moment}

/-- The last request of a tally. -/
theorem requestsOf_ask {stage : Stage} {retries : Nat} (hr : t.Ready n stage retries) :
    requestsOf (t.asked .reset) (t.asked .describe) ++ [.bare stage.request] =
      requestsOf ((t.add (some stage) none).asked .reset) ((t.add (some stage) none).asked .describe) := by
  rw [Tally.add_asked, Tally.add_asked, requestsOf, requestsOf]
  cases stage with
  | reset =>
    have hnone : t.asked .describe = 0 := hr.reaches
    simp [hnone, List.replicate_succ']
  | describe => simp [List.replicate_succ', List.append_assoc]

/-- What leaves the handshake alone adds nothing to the sends of the start. -/
theorem own_aside (hs : ∀ id p, mo.sendEvent = some (.called id p) → id ∉ r.takers) :
    r.own (mo.sendEvent.toList.foldl Outbox.record b).called = r.own b.called ∧
      ∀ id ∈ r.takers, (mo.sendEvent.toList.foldl Outbox.record b).last id = b.last id := by
  cases he : mo.sendEvent with
  | none => exact ⟨rfl, fun _ _ => rfl⟩
  | some e =>
    cases e with
    | called caller p =>
      have hno := hs caller p he
      refine ⟨?_, fun id hid => ?_⟩
      · show List.filter _ (b.called ++ [_]) = _
        rw [List.filter_append, List.filter_cons_of_neg (by simpa using hno), List.filter_nil, List.append_nil]
        rfl
      · exact (Outbox.last_called b caller id p).trans (if_neg fun he => hno (by rw [he]; exact hid))
    | queued | taken | written | returned => exact ⟨rfl, fun _ _ => rfl⟩

theorem written_mono (b : Outbox) (event : Option SendEvent) :
    b.written ⊆ (event.toList.foldl Outbox.record b).written := by
  cases event with
  | none => exact List.Subset.refl _
  | some e => exact ((Outbox.Grows.refl b).record e).written.subset

/-- What leaves the handshake alone leaves the accounts as they are. -/
theorem aside (hacc : Accounts n r b t mo.host) (ht : mo.takesStream = none)
    (hs : ∀ id p, mo.sendEvent = some (.called id p) → id ∉ r.takers)
    (hc : ∀ x ∈ mo.after.calls, x.id ∈ r.takers → x ∈ mo.host.calls) :
    Accounts n (r.add mo) (mo.sendEvent.toList.foldl Outbox.record b) t mo.after := by
  have htakers : (r.add mo).takers = r.takers := by simp [StartRecord.add, ht]
  have hown : ∀ sends, (r.add mo).own sends = r.own sends := fun sends => by rw [StartRecord.own, htakers]; rfl
  obtain ⟨hsame, hlast⟩ := own_aside (b := b) hs
  refine ⟨htakers ▸ hacc.idle, hacc.sound, fun x hx hid => ?_, ?_, fun x hx hid hq s hmem => ?_,
    fun hd => (hacc.acknowledged hd).add mo⟩
  · rw [htakers] at hid
    exact hacc.stands x (hc x hx hid) hid
  · rw [hown, hsame]
    exact hacc.inOrder
  · rw [htakers] at hid
    rw [hown, hsame] at hmem
    rw [hlast _ hid]
    exact (hacc.filed x (hc x hx hid) hid hq s hmem).imp_left fun hw => written_mono b _ hw

/-- What the start has sent before its step, seen after it. -/
theorem own_before (hr : r.takers = [c.id] ∨ r.takers = [] ∧ c.point = .begun .start)
    (ht : (r.add mo).takers = [c.id]) (hun : ∀ req, c.point = .begun req → ∀ s ∈ b.called, s.caller ≠ c.id) :
    (r.add mo).own b.called = r.own b.called := by
  rcases hr with hr | ⟨hr, hpt⟩
  · rw [StartRecord.own, StartRecord.own, ht, hr]
  · rw [StartRecord.own, StartRecord.own, ht, hr, List.filter_eq_nil_iff.mpr, List.filter_eq_nil_iff.mpr]
    · exact fun s _ => by simp
    · exact fun s hs => by simpa using hun _ hpt s hs

/-- What the start has sent after its step: one request more, if it makes one. -/
theorem own_steps (hs : SendMove h c m mo.sendEvent) (hst : StartMove h c m) (ht : (r.add mo).takers = [c.id]) :
    ∃ new : List Send, (r.add mo).own (mo.sendEvent.toList.foldl Outbox.record b).called =
        (r.add mo).own b.called ++ new ∧
      new.map (·.packet) = m.asks.toList.map (.bare ·.request) ∧
      (∀ s ∈ new, (mo.sendEvent.toList.foldl Outbox.record b).last c.id = some s) ∧
      (m.asks = none → (mo.sendEvent.toList.foldl Outbox.record b).last c.id = b.last c.id) := by
  rcases hs.asks hst with ⟨stage, retries, -, -, hasks, he⟩ | ⟨hasks, hno⟩
  · rw [he, hasks]
    refine ⟨[⟨b.called.length, c.id, .bare stage.request⟩], ?_, rfl, fun s hmem => ?_, nofun⟩
    · show List.filter _ (b.called ++ [_]) = _
      rw [List.filter_append, List.filter_cons_of_pos (by simp [ht]), List.filter_nil]
      rfl
    · rw [List.mem_singleton.mp hmem]
      exact (Outbox.last_called b c.id c.id _).trans (if_pos rfl)
  · rw [hasks]
    have hcalled : (mo.sendEvent.toList.foldl Outbox.record b).called = b.called := by
      cases he : mo.sendEvent with
      | none => rfl
      | some e => exact Outbox.called_of_ne fun id p h => hno id p (by rw [he, h])
    exact ⟨[], by rw [hcalled, List.append_nil], rfl, nofun, fun _ => by rw [Outbox.last, hcalled]; rfl⟩

/-- All that a start has sent is written, but for what is under way. -/
theorem filed_steps {current waiting : List Send} (hacc : Accounts n r b t mo.host)
    (hmail : Mailed b current waiting mo.host) (hn : mo.host.Numbered) (hu : mo.host.Unstarted)
    (hmem : c ∈ mo.host.calls) (hm : CallMove mo.host c c.point m) (hl : mo.host.Leaves c m mo.after)
    (hs : SendMove mo.host c m mo.sendEvent) (hst : StartMove mo.host c m) (hid : c.id ∈ r.takers)
    (hq : c.point.phase? ≠ none) (hasks : m.asks = none) {p : Point} (hp : p ∈ m.pointAfter c)
    (hphase : p.phase? ≠ none) {s : Send} (hown : s ∈ r.own b.called) :
    s ∈ b.written ∨ p.sends ∧ b.last c.id = some s := by
  have hfiled := hacc.filed c hmem hid hq s hown
  have hno : ∀ id p, mo.sendEvent ≠ some (.called id p) := by
    rcases hs.asks hst with ⟨_, _, _, _, hsome, _⟩ | ⟨-, hno⟩
    · rw [hasks] at hsome
      cases hsome
    · exact hno
  generalize mo.sendEvent = event at hs hno
  cases hs with
  | calls hp' hsends hf => exact absurd rfl (hno _ _)
  | queues hpt ho hlink hf =>
    refine hfiled.imp_right fun h => ⟨?_, h.2⟩
    rw [Move.pointAfter, hf] at hp
    cases hp
    rfl
  | returns hsends hr hf hg =>
    -- the frame of its last send is written
    obtain rfl := hst.returns_ok hsends hr hp hphase
    obtain ⟨s', hlast, -, hwritten, -⟩ := Mailed.own hn hu hmem hm hl hmail hsends hr
    refine hfiled.elim .inl fun hs => .inl ?_
    obtain rfl := Option.some.inj (hlast.symm.trans hs.2)
    cases hwritten with
    | written hw => exact hw
  | other hr hw hf =>
    rcases hf with hf | ⟨hsends, -⟩
    · rw [Move.pointAfter, hf] at hp
      cases hp
      exact hfiled
    · exact hfiled.elim .inl fun h => by rw [hsends] at h; cases h.1

section Step

variable {config : SessionConfig} {current waiting : List Send} (hacc : Accounts n r b t mo.host)
  (hmail : Mailed b current waiting mo.host) (hn : mo.host.Numbered) (hn' : mo.after.Numbered)
  (hu : mo.host.Unstarted) (hun : ∀ req, c.point = .begun req → ∀ s ∈ b.called, s.caller ≠ c.id)
  (hafter : Starting (r.add mo) config mo.after) (hmem : c ∈ mo.host.calls)
  (hq : c.point.phase? ≠ none ∨ c.point = .begun .start ∧ mo.host.session.portTaken = false)
  (hm : CallMove mo.host c c.point m) (hl : mo.host.Leaves c m mo.after) (hs : SendMove mo.host c m mo.sendEvent)
  (hst : StartMove mo.host c m) (ht : (r.add mo).takers = [c.id])
  (hr : r.takers = [c.id] ∨ r.takers = [] ∧ c.point = .begun .start)

include hacc hmem hr in
/-- Where the start stands as it takes a step. -/
theorem at_step : t.At n c.point := by
  rcases hr with hr | ⟨hr, hpt⟩
  · exact hacc.stands c hmem (by rw [hr]; exact List.mem_singleton.mpr rfl)
  · rw [hpt]
    exact hacc.idle hr

include hacc hmail hn hu hun hmem hq hm hl hs hst hr in
/-- A start that has made a request before goes on with nothing unwritten but what is under way. -/
theorem filed_before {p : Point} (hp : p ∈ m.pointAfter c) (hphase : p.phase? ≠ none) {s : Send}
    (hown : s ∈ r.own b.called) : s ∈ b.written ∨ m.asks = none ∧ p.sends ∧ b.last c.id = some s := by
  obtain ⟨hcalled, hcaller⟩ := StartRecord.mem_own.mp hown
  have htakers : r.takers = [c.id] := hr.resolve_right fun h => by
    rw [h.1] at hcaller
    cases hcaller
  rw [htakers, List.mem_singleton] at hcaller
  have hid : c.id ∈ r.takers := htakers ▸ List.mem_singleton.mpr rfl
  have hthere : c.point.phase? ≠ none := hq.resolve_right fun h => hun _ h.1 s hcalled hcaller
  rcases hs.asks hst with ⟨stage, retries, hnext, -, -, -⟩ | ⟨hasks, -⟩
  · refine (hacc.filed c hmem hid hthere s hown).imp_right fun h => ?_
    rw [(Host.outgoing_of_nextRequest hnext).2] at h
    cases h.1
  · exact (hacc.filed_steps hmail hn hu hmem hm hl hs hst hid hthere hasks hp hphase hown).imp_right fun h => ⟨hasks, h⟩

include hafter hmem hl ht in
/-- A start that makes its second request has had the first acknowledged. -/
theorem acknowledged_of_asks (hasks : m.asks = some .describe) : (r.add mo).Acknowledged := by
  obtain ⟨frame, ticket, limit, retries, keeps, hf⟩ := Move.goes_of_asks hasks
  have hthere := Move.mem_callsAfter_of_goes hmem hf
  rw [← hl.calls] at hthere
  have hid : c.id ∈ (r.add mo).takers := ht ▸ List.mem_singleton.mpr rfl
  cases hafter.stands _ hthere hid with
  | exchanges stage hphase hreached hcourse =>
    obtain rfl : stage = .describe := Stage.phase_inj (Option.some.inj hphase).symm
    exact hreached.isAcknowledged hid

include hacc hmail hn hn' hu hun hafter hmem hq hm hl hs hst ht hr in
/-- **A step of the start keeps the accounts.** -/
theorem steps (hcfg : mo.host.session.config.handshakeRetries = n) :
    Accounts n (r.add mo) (mo.sendEvent.toList.foldl Outbox.record b)
      (t.add m.asks ((mo.host.overdue c).bind Purpose.stage?)) mo.after := by
  have hat := at_step hacc hmem hr
  obtain ⟨hsound, hstands⟩ := hat.move hacc.sound hst hcfg
  have hbefore : (r.add mo).own b.called = r.own b.called := own_before hr ht hun
  obtain ⟨new, hown, hnew, hlast, hkept⟩ := own_steps (b := b) hs hst ht
  have hpoint : ∀ x ∈ mo.after.calls, x.id ∈ (r.add mo).takers → x.id = c.id ∧ x.point ∈ m.pointAfter c := by
    intro x hx hid
    rw [ht, List.mem_singleton] at hid
    exact ⟨hid, hl.point_mem hmem hn' hx hid⟩
  refine ⟨fun hi => ?_, hsound, fun x hx hid => hstands _ (hpoint x hx hid).2, ?_, fun x hx hid hphase s hs' => ?_,
    fun hd => ?_⟩
  · rw [ht] at hi
    cases hi
  · rw [hown, hbefore, List.map_append, hacc.inOrder, hnew]
    rcases hs.asks hst with ⟨stage, retries, hnext, ho, hasks, -⟩ | ⟨hasks, -⟩
    · rw [hasks, ho]
      exact requestsOf_ask (hat.ready hacc.sound hnext)
    · rw [hasks]
      simp [Tally.add]
  · obtain ⟨hid, hp⟩ := hpoint x hx hid
    rw [hown, hbefore] at hs'
    rw [hid]
    rcases List.mem_append.mp hs' with hs' | hs'
    · refine (filed_before hacc hmail hn hu hun hmem hq hm hl hs hst hr hp hphase hs').imp (written_mono b _ ·)
        fun h => ⟨h.2.1, ?_⟩
      rw [hkept h.1, h.2.2]
    · refine ⟨?_, hlast s hs'⟩ |> .inr
      cases hasks : m.asks with
      | none =>
        rw [hasks] at hnew
        rw [List.map_eq_nil_iff.mp hnew] at hs'
        cases hs'
      | some stage =>
        obtain ⟨frame, ticket, limit, retries, keeps, hf⟩ := Move.goes_of_asks hasks
        rw [Move.pointAfter, hf] at hp
        obtain hp := Option.some.inj hp
        rw [← hp]
        rfl
  · by_cases hold : t.asked .describe = 0
    · refine acknowledged_of_asks hafter hmem hl ht ?_
      -- it is the first request of its kind
      cases hasks : m.asks with
      | none => rw [hasks] at hd; exact absurd hold (by simpa [Tally.add] using hd)
      | some stage =>
        cases stage with
        | reset => rw [hasks] at hd; exact absurd hold (by simpa [Tally.add] using hd)
        | describe => rfl
    · exact (hacc.acknowledged hold).add mo

end Step

end Accounts

namespace Host

variable (config : SessionConfig) (twin : Twin) (as : List Action)

/-- The two requests differ. -/
theorem request_injective : Function.Injective fun stage : Stage => Packet.bare stage.request := by
  intro stage stage' he
  cases stage <;> cases stage' <;> first | rfl | exact absurd he (by decide)

/-- Where the handshake is left alone, nothing is counted. -/
theorem tally_aside {start : Host} {as : List Action} {a : Action}
    (ht : (Moment.mk (start.run as) a).takesStream = none) (hx : (Moment.mk (start.run as) a).expires = none)
    (hs : ∀ id p, (Moment.mk (start.run as) a).sendEvent = some (.called id p) → id ∉ (start.startRecord as).takers) :
    start.tally (as ++ [a]) = start.tally as := by
  have hown : (start.startRecord (as ++ [a])).own (start.outbox (as ++ [a])).called =
      (start.startRecord as).own (start.outbox as).called := by
    rw [startRecord_concat, outbox_concat, StartRecord.own]
    simp only [StartRecord.add, ht, Option.toList_none, List.append_nil]
    exact (Accounts.own_aside (b := start.outbox as) hs).1
  simp only [tally, hown, seen_concat, hx, Option.toList_none, List.append_nil]

/-- A step of the start is counted as what it does. -/
theorem tally_steps {start : Host} {as : List Action} {a : Action}
    (hc : (Moment.mk (start.run as) a).mover = some c)
    (hs : SendMove (start.run as) c m (Moment.mk (start.run as) a).sendEvent) (hst : StartMove (start.run as) c m)
    (hun : ∀ req, c.point = .begun req → ∀ s ∈ (start.outbox as).called, s.caller ≠ c.id)
    (ht : ((start.startRecord as).add ⟨start.run as, a⟩).takers = [c.id])
    (hr : (start.startRecord as).takers = [c.id] ∨ (start.startRecord as).takers = [] ∧ c.point = .begun .start) :
    start.tally (as ++ [a]) = (start.tally as).add m.asks (((start.run as).overdue c).bind Purpose.stage?) := by
  obtain ⟨new, hown, hnew, -, -⟩ := Accounts.own_steps (b := start.outbox as) hs hst ht
  rw [Accounts.own_before hr ht hun] at hown
  have hexpires : (Moment.mk (start.run as) a).expires = ((start.run as).overdue c).bind Purpose.stage? := by
    rw [Moment.expires, Moment.overdue, hc, Option.bind_some]
  have hasked : ∀ stage,
      (start.tally (as ++ [a])).asked stage = (start.tally as).asked stage + m.asks.toList.count stage := by
    intro stage
    rw [tally, startRecord_concat, outbox_concat]
    dsimp only
    rw [hown, List.map_append, List.count_append, hnew, ← List.count_map_of_injective _ _ request_injective]
    rfl
  have hexpired : ∀ stage, (start.tally (as ++ [a])).expired stage =
      (start.tally as).expired stage + (((start.run as).overdue c).bind Purpose.stage?).toList.count stage := by
    intro stage
    rw [tally, seen_concat, hexpires]
    dsimp only
    rw [List.count_append]
    rfl
  rw [Tally.add, ← funext hasked, ← funext hexpired]

/-- **The accounts are kept in every run.** -/
theorem accounts_run : Accounts config.handshakeRetries ((ofSession config twin).startRecord as)
    ((ofSession config twin).outbox as) ((ofSession config twin).tally as) ((ofSession config twin).run as) := by
  induction as using List.reverseRecOn with
  | nil => exact ⟨fun _ _ => ⟨rfl, rfl⟩, ⟨fun _ => Nat.zero_le _, fun _ => Nat.zero_le _, fun _ => Nat.zero_le _⟩,
      List.forall_mem_nil _, rfl, List.forall_mem_nil _, fun h => absurd rfl h⟩
  | append_singleton as a ih =>
    have hn := (Setup.session config twin).numbered_run as
    have hstarting := starting_run config twin (as ++ [a])
    have hun := (Setup.session config twin).unsent_run as
    rw [run_concat, startRecord_concat] at hstarting
    rw [run_concat, startRecord_concat, outbox_concat]
    cases startTurn config twin as a with
    | aside ht hx hb hf hs hc =>
      rw [tally_aside ht hx hs]
      exact Accounts.aside ih ht hs hc
    | @steps c m hc hmem hq hm hl hs hst ht hr =>
      obtain ⟨current, waiting, hmail⟩ := (Setup.session config twin).mailed_run as
      rw [tally_steps hc hs hst (hun c hmem) ht hr]
      exact Accounts.steps ih hmail hn (hn.acts (acts_ofSession config twin _ a)) ((Setup.session config twin).unstarted_run as)
        (hun c hmem) hstarting hmem hq hm hl hs hst ht hr (by rw [(starting_run config twin as).configured])

end Host

end TwinLink
