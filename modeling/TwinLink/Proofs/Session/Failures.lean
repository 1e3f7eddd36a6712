import TwinLink.Proofs.Link.Waits
import TwinLink.Proofs.Session.Requests

/-!
# How the link fails its callers

Apart from a deadline that passes, the link fails a caller only when it has ended: the caller is told that the link was
closed, or what went wrong as its frame was written.

* `Host.Broken h e` : the link has ended, and `e` is what its callers are told of that;
* `Host.Candid` : whatever a caller is told of a failure is that the link has ended; `Setup.candid_run`.
-/

namespace TwinLink

/-- The link takes no more registrations, and `e` tells a caller that it was closed, or that a device that takes no more
bytes did not take a frame. -/
structure Host.Broken (h : Host) (e : LinkError) : Prop where
  closed : h.link.table.closed.isSome
  error : (∃ reason, e = .closed reason) ∨ h.wire.writeFault.isSome ∧ ∃ text, e = .io text

variable {h h' : Host} {a : Action} {e : LinkError}

namespace Host.Broken

theorem isFatal (hb : h.Broken e) : e.isFatal = true := by
  rcases hb.error with ⟨reason, rfl⟩ | ⟨-, text, rfl⟩ <;> rfl

theorem ne_timeout (hb : h.Broken e) : e ≠ .timeout := by
  rcases hb.error with ⟨reason, rfl⟩ | ⟨-, text, rfl⟩ <;> exact nofun

theorem ne_frame (hb : h.Broken e) (f : FrameError) : e ≠ .frame f := by
  rcases hb.error with ⟨reason, rfl⟩ | ⟨-, text, rfl⟩ <;> exact nofun

theorem mono (hb : h.Broken e) (hc : h.link.table.closed.isSome → h'.link.table.closed.isSome)
    (hw : h.wire.writeFault.isSome → h'.wire.writeFault.isSome) : h'.Broken e :=
  ⟨hc hb.closed, hb.error.imp_right fun he => ⟨hw he.1, he.2⟩⟩

end Host.Broken

/-! ## What is never undone -/

/-- A device that takes no more bytes never takes any again. -/
theorem Acts.writeFault (ha : Acts h a h') (hw : h.wire.writeFault.isSome) : h'.wire.writeFault.isSome := by
  cases ha with
  | loop i hm ht =>
    rw [ht.wire]
    generalize h.link.loop = q at hm
    cases hm <;> exact hw
  | dispatcher i hm ht => rw [ht.wire]; exact hw
  | call i hc hm hl => rw [hl.wire]; exact hw
  | breakWrite text => rfl
  | _ => exact hw

theorem Acts.tableClosed (ha : Acts h a h') (hn : h.Numbered) (ho : h.link.table.Ordered)
    (hc : h.link.table.closed.isSome) : h'.link.table.closed.isSome := by
  obtain ⟨reason, hc⟩ := Option.isSome_iff_exists.mp hc
  rw [(ha.turn hn ho).closed hc]
  rfl

/-- No edit reports to the writer of a frame. -/
theorem Link.Edits.receipts {ok : Link.Edit → Prop} {l l' : Link} (he : Link.Edits ok l l') :
    ∀ r ∈ l'.receipts, r ∈ l.receipts := by
  induction he with
  | refl => exact fun _ => id
  | tail he e hok ha ih =>
    intro r hr
    refine ih r ?_
    cases e with
    | dropReceipt caller => exact (List.mem_filter.mp hr).1
    | _ => exact hr

/-! ## What callers are told -/

theorem Host.mem_refusals_closed {calls : List Call} {reason : String} {queue : List LinkCommand}
    {r : Nat × Except LinkError Unit} (hr : r ∈ Host.refusals calls reason queue) :
    r.2 = .error (.closed reason) := by
  induction queue with
  | nil => cases hr
  | cons x rest ih =>
    cases x with
    | shutdown => exact ih hr
    | write caller frame =>
      rcases List.mem_append.mp hr with hr | hr
      · rw [Host.receiptFor_eq hr]
      · exact ih hr

/-- Whatever a caller is told of a failure is that the link has ended. -/
structure Host.Candid (h : Host) : Prop where
  refused : h.link.commands.closed → h.Broken h.link.closedError
  receipts : ∀ id e, h.link.receipt? id = some (.error e) → h.Broken e
  deliveries : ∀ c ∈ h.calls, ∀ t, c.point.ticket? = some t → ∀ e, h.link.delivery? t.id = some (.error e) → h.Broken e

/-- A step of the loop reports a failure only as the loop ends. -/
theorem LoopMove.broken {q : LoopPoint} {t : LoopTurn} (hm : LoopMove h q t) {r : Nat × Except LinkError Unit}
    (hr : r ∈ t.link.receipts) (hre : r.2 = .error e) :
    r ∈ h.link.receipts ∨ t.link.table.closed.isSome ∧
      ((∃ reason, e = .closed reason) ∨ h.wire.writeFault.isSome ∧ ∃ text, e = .io text) := by
  have hrefused : ∀ {reason : String} {queue : List LinkCommand}, r ∈ Host.refusals h.calls reason queue →
      (∃ reason, e = .closed reason) ∨ h.wire.writeFault.isSome ∧ ∃ text, e = .io text := fun hr => by
    rw [Host.mem_refusals_closed hr] at hre
    cases hre
    exact .inl ⟨_, rfl⟩
  cases hm with
  | readFailed | hungUp | told | deserted | misframed =>
    exact (List.mem_append.mp hr).imp_right fun hr => ⟨rfl, hrefused hr⟩
  | writeFailed caller rest text hf =>
    rcases List.mem_append.mp hr with hr | hr
    · refine (List.mem_append.mp hr).imp_right fun hr => ⟨rfl, .inr ⟨by rw [hf]; rfl, text, ?_⟩⟩
      rw [Host.receiptFor_eq hr] at hre
      cases hre
      rfl
    · exact .inr ⟨rfl, hrefused hr⟩
  | written caller hf =>
    refine .inl ((List.mem_append.mp hr).resolve_right fun hr => ?_)
    rw [Host.receiptFor_eq hr] at hre
    cases hre
  | _ => exact .inl hr

/-- A failure is reported only by a link that has ended. -/
theorem Acts.receipts (ha : Acts h a h') (hu : h.Unstarted) (hn : h.Numbered) (ho : h.link.table.Ordered)
    (hr : ∀ r ∈ h.link.receipts, ∀ e, r.2 = .error e → h.Broken e) :
    ∀ r ∈ h'.link.receipts, ∀ e, r.2 = .error e → h'.Broken e := by
  intro r hmem e hre
  have hold : r ∈ h.link.receipts → h'.Broken e := fun hmem =>
    (hr r hmem e hre).mono (ha.tableClosed hn ho) ha.writeFault
  rcases ha.link hu with ⟨i, t, rfl, hm, ht⟩ | ⟨events, he⟩ | ⟨ok, he⟩
  · rw [ht.link] at hmem
    rcases hm.broken hmem hre with hmem | ⟨hc, herr⟩
    · exact hold hmem
    · exact ⟨by rw [ht.link]; exact hc, herr.imp_right fun hw => ⟨ha.writeFault hw.1, hw.2⟩⟩
  · rw [he] at hmem
    exact hold hmem
  · exact hold (he.receipts r hmem)

namespace Setup

theorem receipts_run (setup : Setup) (as : List Action) :
    ∀ r ∈ (setup.host.run as).link.receipts, ∀ e, r.2 = .error e → (setup.host.run as).Broken e := by
  induction as using List.reverseRecOn with
  | nil => cases setup <;> exact List.forall_mem_nil _
  | append_singleton as a ih =>
    rw [Host.run_concat]
    exact (setup.acts_run _ a).receipts (setup.unstarted_run as) (setup.numbered_run as) (setup.ordered_run as) ih

theorem sound_run (setup : Setup) (as : List Action) : (setup.host.run as).link.Sound := by
  induction as using List.reverseRecOn with
  | nil => cases setup <;> exact ⟨⟨.nil, List.forall_mem_nil _⟩, List.forall_mem_nil _, nofun, nofun⟩
  | append_singleton as a ih =>
    rw [Host.run_concat]
    exact ih.acts (setup.acts_run _ a) (setup.unstarted_run as)

/-- **Whatever a caller is told of a failure is that the link has ended.** -/
theorem candid_run (setup : Setup) (as : List Action) : (setup.host.run as).Candid where
  refused hc := by
    have hk := setup.sound_run as
    obtain ⟨reason, hr⟩ := Option.isSome_iff_exists.mp (hk.ended hc)
    exact ⟨hk.ended hc, .inl ⟨reason, by rw [Link.closedError, hr]; rfl⟩⟩
  receipts id e hr := by
    have hmem : (id, .error e) ∈ (setup.host.run as).link.receipts := Link.mem_receipts hr
    exact setup.receipts_run as _ hmem e rfl
  deliveries c hc t ht e hd := by
    have hk := setup.kept_run as
    have hlive := Host.mem_live hc ht
    obtain ⟨w, hw, rfl⟩ := hk.holders t hlive
    have hd : (setup.host.run as).link.delivery? w.id = some (.error e) := hd
    rcases hk.delivery? hw hlive with ⟨hn, -⟩ | ⟨p, hp, -⟩ | ⟨reason, hr, -, hc, -⟩
    · rw [hn] at hd
      cases hd
    · rw [hp] at hd
      cases hd
    · rw [hr] at hd
      cases hd
      exact ⟨by rw [hc]; rfl, .inl ⟨reason, rfl⟩⟩

end Setup
end TwinLink
