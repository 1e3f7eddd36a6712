import TwinLink.Proofs.Link.Sending

/-!
# What is written for a call

The loop writes one frame at a time, so every byte that it writes is written for one call. These are the frames of the
call's sends, and what has been written of the last of them.

* `Outbox.sendsOf` : the sends of a call;
* `Host.writesFor`, `Host.writtenFor` : the bytes written for a call, at a moment and in a run;
* `Outbox.share` : the same bytes, by what was sent; `Mailed.share_eq`, `Mailed.share_acts`, `Setup.writtenFor_run`;
* `Setup.writtenFor_nil`, `Setup.writtenFor_one` : calls that send once at most.
-/

namespace TwinLink

variable {h h' : Host} {a : Action} {b : Outbox} {current waiting : List Send} {id : Nat} {s : Send}

/-! ## The sends of a call -/

namespace Outbox

/-- The sends of a call, in the order they were called. -/
def sendsOf (b : Outbox) (id : Nat) : List Send := b.called.filter (·.caller == id)

theorem mem_sendsOf : s ∈ b.sendsOf id ↔ s ∈ b.called ∧ s.caller = id := by
  simp [sendsOf]

theorem last_eq (b : Outbox) (id : Nat) : b.last id = (b.sendsOf id).getLast? := by
  rw [last, sendsOf, ← List.head?_reverse, ← List.filter_reverse, List.head?_filter]

/-- A call that has sent once has its last send in that. -/
theorem last_of_sendsOf (hs : b.sendsOf id = [s]) : b.last id = some s := by
  rw [last_eq, hs]
  rfl

theorem sendsOf_called (b : Outbox) (id : Nat) (p : Packet) :
    (b.record (.called id p)).sendsOf id = b.sendsOf id ++ [⟨b.called.length, id, p⟩] := by
  show (b.called ++ [_]).filter _ = _
  rw [List.filter_append, List.filter_singleton, beq_self_eq_true]
  rfl

/-- Only a send that is called adds to them. -/
theorem sendsOf_record {e : Option SendEvent} (he : ∀ p, e ≠ some (.called id p)) :
    (e.toList.foldl record b).sendsOf id = b.sendsOf id := by
  cases e with
  | none => rfl
  | some e =>
    cases e with
    | called caller p =>
      have hne : (caller == id) = false := by
        refine beq_false_of_ne ?_
        rintro rfl
        exact he p rfl
      show (b.called ++ [_]).filter _ = _
      rw [List.filter_append, List.filter_singleton, hne]
      exact List.append_nil _
    | _ => rfl

theorem written_record (b : Outbox) (e : Option SendEvent) : b.written ⊆ (e.toList.foldl record b).written := by
  cases e with
  | none => exact List.Subset.refl _
  | some e => exact ((Grows.refl b).record e).written.subset

end Outbox

/-! ## Whose bytes are written -/

/-- What is written for the call `id` at a moment, `h'` being the host after it: what is added to the byte stream while
the loop writes a frame of the call. -/
def Host.writesFor (h h' : Host) (id : Nat) : Bytes :=
  match h.link.loop with
  | .writing caller _ => if caller = id then h'.wire.outbound.drop h.wire.outbound.length else []
  | _ => []

/-- What is written for the call `id` in a run. -/
def Host.writtenFor (start : Host) (as : List Action) (id : Nat) : Bytes :=
  (start.moments as).flatMap fun m => m.host.writesFor m.after id

theorem Host.writtenFor_append (start : Host) (as bs : List Action) (id : Nat) :
    start.writtenFor (as ++ bs) id = start.writtenFor as id ++ (start.run as).writtenFor bs id := by
  rw [writtenFor, moments_append, List.flatMap_append]
  rfl

theorem Host.writtenFor_concat (start : Host) (as : List Action) (a : Action) (id : Nat) :
    start.writtenFor (as ++ [a]) id =
      start.writtenFor as id ++ (start.run as).writesFor ((start.run as).apply a) id := by
  rw [writtenFor_append]
  exact congrArg _ (List.append_nil _)

/-- Where nothing is added to the byte stream nothing is written for anybody. -/
theorem Host.writesFor_quiet (ho : h'.wire.outbound = h.wire.outbound) : h.writesFor h' id = [] := by
  unfold writesFor
  rw [ho, List.drop_length]
  split
  · exact ite_self _
  · rfl

/-- The share of the call `id` in the byte stream: its frames that are written, and what there is of the frame that is
taken up and not written, if that is one of them. -/
def Outbox.share (b : Outbox) (h : Host) (id : Nat) : Bytes :=
  (b.written.filter (·.caller == id)).flatMap Send.frame ++
    if (b.taken.drop b.written.length).any (·.caller == id) then
      h.wire.outbound.drop (b.written.flatMap Send.frame).length
    else []

namespace Mailed

theorem current_eq (hm : Mailed b current waiting h) : b.taken.drop b.written.length = current := by
  rw [hm.taken, List.drop_left]

theorem share_between (hm : Mailed b [] waiting h) (id : Nat) :
    b.share h id = (b.written.filter (·.caller == id)).flatMap Send.frame := by
  rw [Outbox.share, hm.current_eq, List.any_nil]
  exact List.append_nil _

theorem share_within (hm : Mailed b [s] waiting h) {part : Bytes}
    (ho : h.wire.outbound = b.written.flatMap Send.frame ++ part) (id : Nat) :
    b.share h id = (b.written.filter (·.caller == id)).flatMap Send.frame ++ if s.caller = id then part else [] := by
  rw [Outbox.share, hm.current_eq, ho, List.drop_left]
  simp

/-- A share ends with what there is of a frame that is taken up and not written, if that is a frame of the call. -/
theorem share_eq (hm : Mailed b current waiting h) (id : Nat) :
    ∃ part, b.share h id = (b.written.filter (·.caller == id)).flatMap Send.frame ++ part ∧
      (part = [] ∨ ∃ s ∈ b.taken, s ∉ b.written ∧ s.caller = id ∧ part <+: s.frame) := by
  cases hm.carries with
  | between hc =>
    subst hc
    exact ⟨[], (hm.share_between id).trans (List.append_nil _).symm, .inl rfl⟩
  | within s part rest hc ho hp =>
    subst hc
    refine ⟨_, hm.share_within ho id, ?_⟩
    by_cases he : s.caller = id
    · have htaken : s ∈ b.taken := by rw [hm.taken]; exact List.mem_concat_self
      rw [if_pos he]
      exact .inr ⟨s, htaken, hm.unwritten List.mem_cons_self, he, rest, hp⟩
    · exact .inl (if_neg he)

/-- Only what is written, and what is taken up, matters. -/
theorem share_quiet {b' : Outbox} (ho : h'.wire.outbound = h.wire.outbound) (hw : b'.written = b.written)
    (ht : b'.taken = b.taken) : b'.share h' id = b.share h id ++ h.writesFor h' id := by
  rw [Outbox.share, Outbox.share, ho, hw, ht, Host.writesFor_quiet ho, List.append_nil]

/-- A step of the loop adds to a share what it writes for it. -/
theorem share_loop {t : LoopTurn} (hm : Mailed b current waiting h) (hn : h.Numbered)
    (hmove : LoopMove h h.link.loop t) (ht : h.LoopTurns t h') (id : Nat) :
    ((h.link.loop.event h'.link.loop).toList.foldl Outbox.record b).share h' id =
      b.share h id ++ h.writesFor h' id := by
  have hlink := ht.link
  have hout' : h'.wire.outbound = t.wire.outbound := congrArg Wire.outbound ht.wire
  generalize hl : h.link.loop = q at hmove ⊢
  cases hmove with
  | obeys hc =>
    -- nothing is written of the frame yet
    obtain ⟨s, rest, htaken⟩ := hm.take ht hl hc rfl rfl
    obtain ⟨rfl, hout⟩ := hm.between (by rw [hl]; exact nofun) (by rw [hl]; rfl)
    have hpart : h'.wire.outbound = b.written.flatMap Send.frame ++ [] := by rw [List.append_nil, ← hout]; exact hout'
    rw [hlink, hm.share_between, Host.writesFor_quiet hout', List.append_nil]
    refine (htaken.share_within hpart id).trans ?_
    rw [ite_self]
    exact List.append_nil _
  | written caller hf =>
    -- the whole frame is written
    obtain ⟨s, part, rfl, rfl, hout, hp⟩ := hm.within hl
    rw [List.append_nil] at hp
    have hdone := hm.complete ht hn hl rfl rfl
    rw [hm.share_within hout, Host.writesFor_quiet hout', List.append_nil, hlink, hp]
    refine (hdone.share_between id).trans ?_
    have hlast := (hm.pending (by rw [hl]; rfl) s List.mem_cons_self).1
    show ((b.written ++ (b.last s.caller).toList).filter _).flatMap _ = _
    rw [hlast, Option.toList_some, List.filter_append, List.flatMap_append]
    by_cases he : s.caller = id <;> simp [he]
  | writes caller rest hf hr n hn' h0 =>
    obtain ⟨s, part, rfl, rfl, hout, hp⟩ := hm.within hl
    have hnext := hm.write ht hl rfl rfl
    have hadds : h'.wire.outbound = h.wire.outbound ++ rest.take n := hout'
    have hpart : h'.wire.outbound = b.written.flatMap Send.frame ++ (part ++ rest.take n) := by
      rw [hadds, hout, List.append_assoc]
    rw [hlink, hm.share_within hout]
    refine (hnext.share_within hpart id).trans ?_
    rw [Host.writesFor, hl, hadds, List.drop_left]
    by_cases he : s.caller = id <;> simp [he]
  | _ =>
    rw [hlink]
    exact share_quiet hout' rfl rfl

/-- **Every action adds to the share of a call what it writes for it.** -/
theorem share_acts (hm : Mailed b current waiting h) (ha : Acts h a h') (hn : h.Numbered) (id : Nat) :
    ((h.sendEvent a h').toList.foldl Outbox.record b).share h' id = b.share h id ++ h.writesFor h' id := by
  have hn' := hn.acts ha
  cases ha with
  | idle a hr =>
    rw [Host.sendEvent_refused hr]
    exact share_quiet rfl rfl rfl
  | loop i hmove ht => exact hm.share_loop hn hmove ht id
  | @call _ i c m _ hc hmove hl =>
    have hsend := hmove.sends
    rw [Host.sendEvent_call i hc hl hn']
    generalize h.callEvent c (m.pointAfter c) = event at hsend ⊢
    cases hsend <;> exact share_quiet (by rw [hl.wire]) rfl rfl
  | dispatcher i hmove ht => exact share_quiet (by rw [ht.wire]) rfl rfl
  | _ => exact share_quiet rfl rfl rfl

end Mailed

namespace Setup

variable (setup : Setup) (as : List Action)

/-- **What is written for a call is its share in the byte stream.** -/
theorem writtenFor_run (id : Nat) :
    setup.host.writtenFor as id = (setup.host.outbox as).share (setup.host.run as) id := by
  induction as using List.reverseRecOn with
  | nil => rfl
  | append_singleton as a ih =>
    obtain ⟨current, waiting, hm⟩ := setup.mailed_run as
    rw [Host.writtenFor_concat, Host.outbox_concat, Host.run_concat, ih]
    exact (hm.share_acts (setup.acts_run _ a) (setup.numbered_run as) id).symm

variable {as}

/-- Of the sends of a call those that were taken up are what it has called. -/
theorem mem_sendsOf_of_taken (hs : s ∈ (setup.host.outbox as).taken) (hid : s.caller = id) :
    s ∈ (setup.host.outbox as).sendsOf id := by
  obtain ⟨current, waiting, hm⟩ := setup.mailed_run as
  exact Outbox.mem_sendsOf.mpr ⟨hm.called s ((setup.written_inOrder as).2.subset hs), hid⟩

/-- What is taken up of a call that sends once is that send. -/
theorem eq_of_taken (hs : (setup.host.outbox as).sendsOf id = [s]) {x : Send} (hx : x ∈ (setup.host.outbox as).taken)
    (hid : x.caller = id) : x = s := by
  have hmem := setup.mem_sendsOf_of_taken hx hid
  rwa [hs, List.mem_singleton] at hmem

/-- Nothing is written for a call that sends nothing. -/
theorem writtenFor_nil (hs : (setup.host.outbox as).sendsOf id = []) : setup.host.writtenFor as id = [] := by
  have hno : ∀ s ∈ (setup.host.outbox as).taken, s.caller ≠ id := fun s ht hid => by
    have := setup.mem_sendsOf_of_taken ht hid
    rw [hs] at this
    cases this
  have hwritten : (setup.host.outbox as).written.filter (·.caller == id) = [] := List.filter_eq_nil_iff.mpr fun s hw => by
    simp [hno s ((setup.written_inOrder as).1.subset hw)]
  obtain ⟨current, waiting, hm⟩ := setup.mailed_run as
  obtain ⟨part, hshare, rfl | ⟨s, ht, -, hid, -⟩⟩ := hm.share_eq id
  · rw [writtenFor_run, hshare, hwritten]
    rfl
  · exact absurd hid (hno s ht)

/-- A frame is written once, so the only send of a call stands once in what is written, if it stands there. -/
theorem written_one (hs : (setup.host.outbox as).sendsOf id = [s]) (hw : s ∈ (setup.host.outbox as).written) :
    (setup.host.outbox as).written.filter (·.caller == id) = [s] := by
  obtain ⟨current, waiting, hm⟩ := setup.mailed_run as
  obtain ⟨htaken, hqueued⟩ := setup.written_inOrder as
  have hid : s.caller = id := (Outbox.mem_sendsOf.mp (hs ▸ List.mem_singleton.mpr rfl)).2
  have hnodup := (hm.distinct.sublist (htaken.trans hqueued).sublist).filter (·.caller == id)
  refine List.perm_singleton.mp ((List.perm_ext_iff_of_nodup hnodup (List.nodup_singleton s)).mpr fun x => ?_)
  rw [List.mem_singleton, List.mem_filter, beq_iff_eq]
  exact ⟨fun ⟨hx, hid⟩ => setup.eq_of_taken hs (htaken.subset hx) hid, fun he => he ▸ ⟨hw, hid⟩⟩

/-- For a call that sends once its frame is written, or a part of it. -/
theorem writtenFor_one (hs : (setup.host.outbox as).sendsOf id = [s]) :
    s ∈ (setup.host.outbox as).written ∧ setup.host.writtenFor as id = s.frame ∨
      s ∉ (setup.host.outbox as).written ∧ setup.host.writtenFor as id <+: s.frame := by
  obtain ⟨current, waiting, hm⟩ := setup.mailed_run as
  obtain ⟨part, hshare, hpart⟩ := hm.share_eq id
  rw [writtenFor_run, hshare]
  by_cases hw : s ∈ (setup.host.outbox as).written
  · refine .inl ⟨hw, ?_⟩
    obtain rfl | ⟨x, hx, hno, hid, -⟩ := hpart
    · rw [setup.written_one hs hw, List.flatMap_singleton, List.append_nil]
    · exact absurd (setup.eq_of_taken hs hx hid ▸ hw) hno
  · have hnone : (setup.host.outbox as).written.filter (·.caller == id) = [] :=
      List.filter_eq_nil_iff.mpr fun x hx hid =>
        hw (setup.eq_of_taken hs ((setup.written_inOrder as).1.subset hx) (beq_iff_eq.mp hid) ▸ hx)
    refine .inr ⟨hw, ?_⟩
    rw [hnone]
    obtain rfl | ⟨x, hx, -, hid, hprefix⟩ := hpart
    · exact List.nil_prefix
    · exact setup.eq_of_taken hs hx hid ▸ hprefix

end Setup
end TwinLink
