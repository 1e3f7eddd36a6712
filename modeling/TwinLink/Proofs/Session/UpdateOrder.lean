import TwinLink.Proofs.Session.Updates

/-!
# In which order the twin is told of values

The dispatcher tells the twin of notifications in the order in which their frames came in, and the calls tell it of the
replies to their writes in that order. But neither waits for the other: a value gets ahead of an older one that is still
queued, or still in the hand of a call.

* `Host.InOrder` : the twin is told the values of a property in the order of their frames;
* `Host.GetsAhead` : an update is made while an older frame is on its way, of which the twin is told later;
* `Host.updates_byMaker` : updates made in one of the two ways are in order;
* `Host.values_inOrder_iff` : the values of a property are in order exactly if none gets ahead;
* `Host.writtenPast` : a run in which one does, and the last value told is not the last reported.
-/

namespace TwinLink

namespace Host

variable {config : SessionConfig} {twin : Twin} {as bs cs : List Action} {a : Action} {u v : Update}

/-- The twin is told the values of the property in the order in which their frames were sorted. -/
def InOrder (h : Host) (as : List Action) (name : String) : Prop :=
  ((h.updates as).filter (·.name = name)).Pairwise fun u v => u.frame < v.frame

/-- The update `u` of a property gets ahead of `v`: it is made after the actions `bs`, while an older frame is on its
way, and the twin is told the value in that frame, too. -/
structure GetsAhead (h : Host) (as : List Action) (name : String) (bs : List Action) (u v : Update) : Prop where
  made : ∃ a, bs ++ [a] <+: as ∧ h.update bs a = some u
  told : v ∈ h.updates as
  names : u.name = name ∧ v.name = name
  older : v.frame < u.frame
  onTheWay : v.frame ∈ h.onTheWay bs

/-! ## Frames are taken up once -/

theorem mem_numberedIn_of_queued {h : Host} {x : Nat × Packet} (hx : x ∈ h.queued bs) :
    x ∈ numberedIn Moment.forwarded h bs := (List.drop_sublist _ _).subset hx

theorem mem_numberedIn_of_inHand {h : Host} {x : Nat × Waiter × Packet} (hx : x ∈ h.inHand bs) :
    x ∈ numberedIn Moment.served h bs := (List.mem_filter.mp hx).1

/-- The oldest frame is taken up first, and the others are younger. -/
theorem queued_ordered : ((ofSession config twin).queued bs).Pairwise fun x y => x.1 < y.1 :=
  (numberedIn_ordered fun _ => Moment.sorted_of_forwarded).1.sublist (List.drop_sublist _ _)

/-- One packet is in one hand. -/
theorem eq_of_inHand {n : Nat} {x y : Waiter × Packet} (hx : (n, x) ∈ (ofSession config twin).inHand bs)
    (hy : (n, y) ∈ (ofSession config twin).inHand bs) : x = y := by
  have hnodup : ((numberedIn Moment.served (ofSession config twin) bs).map (·.1)).Nodup :=
    List.pairwise_map.mpr ((numberedIn_ordered fun _ => Moment.sorted_of_served).1.imp Nat.ne_of_lt)
  exact congrArg Prod.snd
    (List.inj_on_of_nodup_map hnodup (mem_numberedIn_of_inHand hx) (mem_numberedIn_of_inHand hy) rfl)

namespace Pushes

/-- What is still queued after the dispatcher has made an update is younger. -/
theorem lt_of_queued (hp : (ofSession config twin).Pushes bs a u) (hu : u.queued) :
    ∀ x ∈ (ofSession config twin).queued (bs ++ [a]), u.frame < x.1 := by
  intro x hx
  cases hp with
  | @queue i u p rest hq ht hb hu =>
    have hrest := (quiet_concat rfl).1.subset hx
    have hordered : ((ofSession config twin).queued bs).Pairwise fun x y => x.1 < y.1 := queued_ordered
    rw [ht, hq] at hrest
    rw [hq] at hordered
    exact List.rel_of_pairwise_cons hordered hrest
  | reply id i hc ht hp hk hw hgone hb hu' => rw [hu'] at hu; cases hu

/-- The call that makes an update had the only hand that waited for a property. -/
theorem not_inHand (hp : (ofSession config twin).Pushes bs a u) (hv : ∀ b ∈ bs, b.viaSession) (hu : u.queued = false)
    {x : Nat × Waiter × Packet} (hx : x ∈ (ofSession config twin).inHand (bs ++ [a])) :
    x.2.1.type ≠ PacketKind.propertyNotification.code := by
  intro htype
  cases hp with
  | queue i hq ht hb hu' => rw [hu'] at hu; cases hu
  | @reply id i u c w plan p hc ht hp hk hw hgone hb =>
    obtain ⟨hx, hlive⟩ := (quiet_concat rfl).2 x hx
    have hb : ((ofSession config twin).run bs).Bound _ := bound_run hv
    -- the ticket is that of a call with the same lock, which is the same call
    have hheld := of_decide_eq_true (List.mem_filter.mp hx).2
    rw [live, hb.tickets, List.nil_append] at hheld
    obtain ⟨c', hc', ht'⟩ := List.mem_filterMap.mp hheld
    cases hplan : c'.point.plan? with
    | none =>
      obtain ⟨stage, hstage⟩ := hb.handshake c' hc' _ ht' hplan
      rw [show x.2.1.ticket.type = _ from htype] at hstage
      cases stage <;> exact absurd hstage (by decide)
    | some plan' =>
      have hresponse : plan.kind.response = plan'.kind.response := by
        have htype' : x.2.1.type = plan'.kind.response.code := hb.type_eq hc' ht' hplan
        rw [htype] at htype'
        rw [hk]
        cases hk' : plan'.kind with
        | command => rw [hk'] at htype'; exact absurd htype' (by decide)
        | _ => rfl
      obtain rfl := hb.eq_of_turn ((Setup.session config twin).numbered_run bs) hc hc' ht hp ht' hplan hresponse
      rw [ht] at ht'
      rw [← Option.some.inj ht'] at hlive
      exact hgone hlive

/-- The frame of an update was on its way until then. -/
theorem onTheWay (hp : (ofSession config twin).Pushes bs a u) : u.frame ∈ (ofSession config twin).onTheWay bs ∧
    u.frame ∉ (ofSession config twin).onTheWay (bs ++ [a]) := by
  have hyounger := hp.lt_of_queued
  cases hp with
  | @queue i u p rest hq ht hb hu =>
    have hmem : (u.frame, p) ∈ (ofSession config twin).queued bs := by rw [hq]; exact List.mem_cons_self
    refine ⟨mem_onTheWay.mpr (.inl ⟨p, hmem⟩), fun hafter => ?_⟩
    rcases mem_onTheWay.mp hafter with ⟨q, hq⟩ | ⟨x, hx⟩
    · exact Nat.lt_irrefl _ (hyounger hu _ hq)
    · exact disjoint_numbers (mem_numberedIn_of_queued hmem) (mem_numberedIn_of_inHand ((quiet_concat rfl).2 _ hx).1)
  | @reply id i u c w plan p hc ht hp hk hw hgone hb hu =>
    refine ⟨mem_onTheWay.mpr (.inr ⟨_, hw⟩), fun hafter => ?_⟩
    rcases mem_onTheWay.mp hafter with ⟨q, hq⟩ | ⟨x, hx⟩
    · have hq := (List.drop_sublist _ _).subset ((quiet_concat rfl).1.subset hq)
      exact disjoint_numbers (mem_numberedIn_of_queued hq) (mem_numberedIn_of_inHand hw)
    · obtain ⟨hx, hlive⟩ := (quiet_concat rfl).2 _ hx
      rw [eq_of_inHand hx hw] at hlive
      exact hgone hlive

end Pushes

/-- Every update of a run was made in one of the two ways. -/
theorem pushes_of_update (hv : ∀ b ∈ bs, b.viaSession) (hu : (ofSession config twin).update bs a = some u) :
    (ofSession config twin).Pushes bs a u := by
  rcases update_cases hv a with ⟨-, hnone⟩ | ⟨v, -, hv, hp⟩
  · rw [hnone] at hu
    cases hu
  · rw [hv] at hu
    cases hu
    exact hp

theorem pushes_of_mem (hv : ∀ b ∈ as, b.viaSession) (hu : u ∈ (ofSession config twin).updates as) :
    ∃ bs a, bs ++ [a] <+: as ∧ (ofSession config twin).Pushes bs a u := by
  obtain ⟨bs, a, hb, hu⟩ := mem_updates.mp hu
  exact ⟨bs, a, hb, pushes_of_update (fun b h => hv b (hb.subset (List.mem_append_left _ h))) hu⟩

/-- A frame that an update was made of is not on its way any more. -/
theorem notMem_onTheWay (hv : ∀ b ∈ as, b.viaSession) (hu : u ∈ (ofSession config twin).updates as) :
    u.frame ∉ (ofSession config twin).onTheWay as ∧ u.frame < (ofSession config twin).sortedBy as := by
  obtain ⟨bs, a, hb, hp⟩ := pushes_of_mem hv hu
  have hlt : u.frame < (ofSession config twin).sortedBy (bs ++ [a]) :=
    Nat.lt_of_lt_of_le (onTheWay_lt hp.onTheWay.1) (sortedBy_mono (List.prefix_append _ _))
  refine ⟨fun hway => ?_, Nat.lt_of_lt_of_le hlt (sortedBy_mono hb)⟩
  rcases onTheWay_earlier hb hway with hway | hle
  · exact hp.onTheWay.2 hway
  · exact Nat.not_le.mpr hlt hle

/-! ## Updates of one maker -/

/-- Updates that are made in one of the two ways are in the order of their frames. -/
theorem updates_byMaker (hv : ∀ b ∈ as, b.viaSession) (queued : Bool) :
    ((ofSession config twin).updates as |>.filter (·.queued = queued)).Pairwise fun u v => u.frame < v.frame := by
  induction as using List.reverseRecOn with
  | nil => exact .nil
  | append_singleton as a ih =>
    have hva : ∀ b ∈ as, b.viaSession := fun b h => hv b (List.mem_append_left _ h)
    rw [updates_concat, List.filter_append]
    refine List.pairwise_append.mpr ⟨ih hva, ?_, fun v hmem u hu => ?_⟩
    · cases (ofSession config twin).update as a with
      | none => exact .nil
      | some u => exact (List.pairwise_singleton _ u).filter _
    · obtain ⟨hu, hmaker⟩ := List.mem_filter.mp hu
      obtain ⟨hmem, hmaker'⟩ := List.mem_filter.mp hmem
      have hsame : v.queued = u.queued := (of_decide_eq_true hmaker').trans (of_decide_eq_true hmaker).symm
      obtain ⟨bs, b, hb, hpv⟩ := pushes_of_mem hva hmem
      have hvb : ∀ x ∈ bs, x.viaSession := fun x h => hva x (hb.subset (List.mem_append_left _ h))
      have hlt : v.frame < (ofSession config twin).sortedBy (bs ++ [b]) :=
        Nat.lt_of_lt_of_le (onTheWay_lt hpv.onTheWay.1) (sortedBy_mono (List.prefix_append _ _))
      have hpu := pushes_of_update hva (Option.mem_toList.mp hu)
      cases hpu with
      | @queue i u p rest hq ht hbr huq =>
        have hmem : (u.frame, p) ∈ (ofSession config twin).queued as := by rw [hq]; exact List.mem_cons_self
        rcases queued_earlier hb hmem with hmem | hle
        · exact hpv.lt_of_queued (hsame.trans huq) _ hmem
        · exact Nat.lt_of_lt_of_le hlt hle
      | @reply id i u c w plan p hc ht hp hk hw hgone hbr huq =>
        rcases inHand_earlier hb hw with hmem | hle
        · -- it had not been in a hand then
          refine absurd ?_ (hpv.not_inHand hvb (hsame.trans huq) hmem)
          have htype : w.type = plan.kind.response.code := (bound_run hva).type_eq hc ht hp
          rw [hk] at htype
          exact htype
        · exact Nat.lt_of_lt_of_le hlt hle

/-! ## Updates that get ahead -/

theorem updates_append (h : Host) (bs cs : List Action) :
    h.updates (bs ++ cs) = h.updates bs ++ h.updatesAfter bs cs := by
  induction cs using List.reverseRecOn with
  | nil => rw [List.append_nil, updatesAfter, List.append_nil]
  | append_singleton cs c ih =>
    rw [← List.append_assoc, updates_concat, ih, updatesAfter_concat, List.append_assoc]

/-- What gets ahead of another update is made before it. -/
theorem GetsAhead.before (hv : ∀ b ∈ as, b.viaSession) {name : String}
    (hg : (ofSession config twin).GetsAhead as name bs u v) :
    ∃ xs ys, (ofSession config twin).updates as = xs ++ u :: ys ∧ v ∈ ys := by
  obtain ⟨⟨a, hb, hu⟩, htold, -, holder, hway⟩ := hg
  obtain ⟨cs, rfl⟩ := hb
  rw [updates_append, updates_concat, hu, Option.toList_some, List.append_assoc, List.singleton_append] at htold ⊢
  refine ⟨_, _, rfl, ?_⟩
  rcases List.mem_append.mp htold with hbefore | hafter
  · -- a frame of which the twin has been told is not on its way
    have hvb : ∀ b ∈ bs, b.viaSession := fun b h =>
      hv b (List.mem_append_left _ (List.mem_append_left _ h))
    exact absurd hway (notMem_onTheWay hvb hbefore).1
  · rcases List.mem_cons.mp hafter with rfl | hafter
    · exact absurd holder (Nat.lt_irrefl _)
    · exact hafter

/-- Updates of which one gets ahead of another are not in order. -/
theorem GetsAhead.disordered (hv : ∀ b ∈ as, b.viaSession) {name : String}
    (hg : (ofSession config twin).GetsAhead as name bs u v) {P : Update → Bool} (hu : P u) (hv' : P v) :
    ¬((ofSession config twin).updates as |>.filter P).Pairwise fun u v => u.frame < v.frame := by
  intro hordered
  obtain ⟨xs, ys, he, hmem⟩ := hg.before hv
  rw [he, List.filter_append, List.filter_cons_of_pos hu] at hordered
  have hlt := List.rel_of_pairwise_cons (List.pairwise_append.mp hordered).2.1 (List.mem_filter.mpr ⟨hmem, hv'⟩)
  exact Nat.lt_asymm hlt hg.older

/-- If the twin is not told in order, a value has got ahead. -/
theorem inOrder_of_noneAhead (hv : ∀ b ∈ as, b.viaSession) {name : String}
    (hno : ∀ bs u v, ¬(ofSession config twin).GetsAhead as name bs u v) :
    (ofSession config twin).InOrder as name := by
  induction as using List.reverseRecOn with
  | nil => exact .nil
  | append_singleton as a ih =>
    have hva : ∀ b ∈ as, b.viaSession := fun b h => hv b (List.mem_append_left _ h)
    have hold : ∀ {v : Update}, v ∈ (ofSession config twin).updates as →
        v ∈ (ofSession config twin).updates (as ++ [a]) := by
      intro v hmem
      rw [updates_concat]
      exact List.mem_append_left _ hmem
    have ih := ih hva fun bs u v hg => by
      obtain ⟨b, hb, hu⟩ := hg.made
      exact hno bs u v ⟨⟨b, hb.trans (List.prefix_append _ _), hu⟩, hold hg.told, hg.names, hg.older, hg.onTheWay⟩
    unfold InOrder at ih ⊢
    rw [updates_concat, List.filter_append]
    refine List.pairwise_append.mpr ⟨ih, ?_, fun v hmem u hu => ?_⟩
    · cases (ofSession config twin).update as a with
      | none => exact .nil
      | some u => exact (List.pairwise_singleton _ u).filter _
    · obtain ⟨hu, hname⟩ := List.mem_filter.mp hu
      obtain ⟨hmem, hname'⟩ := List.mem_filter.mp hmem
      have hu := Option.mem_toList.mp hu
      have hway := (pushes_of_update hva hu).onTheWay.1
      refine Nat.lt_of_not_le fun hle => ?_
      rcases Nat.eq_or_lt_of_le hle with he | hlt
      · rw [he] at hway
        exact (notMem_onTheWay hva hmem).1 hway
      · -- it was on its way when the other was made
        obtain ⟨bs, b, hb, hmade⟩ := mem_updates.mp hmem
        have hvb : ∀ x ∈ bs, x.viaSession := fun x h => hva x (hb.subset (List.mem_append_left _ h))
        refine hno bs v u ⟨⟨b, hb.trans (List.prefix_append _ _), hmade⟩, ?_,
          ⟨of_decide_eq_true hname', of_decide_eq_true hname⟩, hlt, ?_⟩
        · rw [updates_concat, hu]
          exact List.mem_append_right _ (List.mem_singleton.mpr rfl)
        · have hb : bs <+: as := (List.prefix_append _ _).trans hb
          refine (onTheWay_earlier hb hway).resolve_right fun hle => ?_
          exact Nat.not_le.mpr (Nat.lt_trans hlt (onTheWay_lt (pushes_of_update hvb hmade).onTheWay.1)) hle

/-- The updates of a run are all that the twin is told of values. -/
theorem updates_told (hv : ∀ b ∈ as, b.viaSession) :
    (((ofSession config twin).run as).history.filterMap (·.what.update?)).reverse =
      ((ofSession config twin).updates as).map fun u => (u.name, u.value) := by
  induction as using List.reverseRecOn with
  | nil => rfl
  | append_singleton as a ih =>
    have hva : ∀ b ∈ as, b.viaSession := fun b h => hv b (List.mem_append_left _ h)
    obtain ⟨notes, hn⟩ := history_acts (acts_ofSession config twin as a)
    have htold : (Moment.mk ((ofSession config twin).run as) a).told = notes.filterMap (·.what.update?) := by
      rw [Moment.told, Moment.news_eq (m := ⟨(ofSession config twin).run as, a⟩) hn]
    rw [run_concat, hn, List.filterMap_append, List.reverse_append, ih hva, updates_concat, List.map_append, ← htold]
    congr 1
    rcases update_cases hva a with ⟨hnone, hu⟩ | ⟨u, hsome, hu, -⟩
    · rw [hnone, hu]
      rfl
    · rw [hsome, hu]
      rfl

/-- The value of an update is in its frame. -/
theorem exists_packet (hv : ∀ b ∈ as, b.viaSession) (hu : u ∈ (ofSession config twin).updates as) :
    ∃ m ∈ (ofSession config twin).moments as, m.number = u.frame ∧ ∃ p, m.packet = some p ∧ p.Brings u.name u.value := by
  obtain ⟨bs, a, hb, hp⟩ := pushes_of_mem hv hu
  have hms := (moments_mono (ofSession config twin) ((List.prefix_append bs [a]).trans hb)).subset
  cases hp with
  | @queue i u p rest hq ht hbrings hqueued =>
    have hmem : (u.frame, p) ∈ (ofSession config twin).queued bs := by rw [hq]; exact List.mem_cons_self
    obtain ⟨m, hm, hmp⟩ := List.mem_filterMap.mp (mem_numberedIn_of_queued hmem)
    obtain ⟨q, hf, he⟩ := Option.map_eq_some_iff.mp hmp
    obtain ⟨hn, rfl⟩ := Prod.mk.inj he
    exact ⟨m, hms hm, hn, q, Moment.packet_of_forwarded hf, hbrings⟩
  | @reply id i u c w plan p hc ht hp hk hw hgone hbrings hqueued =>
    obtain ⟨m, hm, hmp⟩ := List.mem_filterMap.mp (mem_numberedIn_of_inHand hw)
    obtain ⟨q, hf, he⟩ := Option.map_eq_some_iff.mp hmp
    obtain ⟨hn, rfl⟩ := Prod.mk.inj he
    exact ⟨m, hms hm, hn, p, Moment.packet_of_served hf, hbrings⟩

/-- **The twin sees the values of a property in the order of the device exactly if none gets ahead.** In a run in which the
session is used and not the link under it, whatever the twin's delays and however few events are queued: all that the
twin is told of values are the values in notifications of the device; those that the dispatcher tells it are in the order
of their frames, and those that calls tell it which have written a property are, too; and the values of a property are in
order if and only if no update is made while an older frame with a value of the property is on its way, which can only
happen to one of the dispatcher by a call or to one of a call by the dispatcher. -/
theorem values_inOrder_iff (config : SessionConfig) (twin : Twin) (as : List Action) (hv : ∀ a ∈ as, a.viaSession) :
    let h := ofSession config twin
    ((h.run as).history.filterMap (·.what.update?)).reverse = (h.updates as).map (fun u => (u.name, u.value)) ∧
    (∀ u ∈ h.updates as,
      ∃ m ∈ h.moments as, m.number = u.frame ∧ ∃ p, m.packet = some p ∧ p.Brings u.name u.value) ∧
    (∀ queued, ((h.updates as).filter (·.queued = queued)).Pairwise fun u v => u.frame < v.frame) ∧
    ∀ name, (h.InOrder as name ↔ ∀ bs u v, ¬h.GetsAhead as name bs u v) ∧
      ∀ bs u v, h.GetsAhead as name bs u v → u.queued ≠ v.queued := by
  intro h
  refine ⟨updates_told hv, fun u hu => exists_packet hv hu, updates_byMaker hv, fun name => ⟨⟨fun hin bs u v hg => ?_,
    inOrder_of_noneAhead hv⟩, fun bs u v hg hsame => ?_⟩⟩
  · exact hg.disordered hv (decide_eq_true hg.names.1) (decide_eq_true hg.names.2) hin
  · exact hg.disordered hv (decide_eq_true rfl) (decide_eq_true hsame.symm) (updates_byMaker hv u.queued)

/-- A session starts with a device that has one property, which it reports at once. The twin takes a hundred milliseconds
over it. -/
def reportedOnce : List Action :=
  let call := Action.advance (.call 0) false
  let loop := Action.advance .loop false
  let device := fun p : Packet => Action.receive (Frame.encode p.toBytes)
  [.make .start, call, call, loop, loop, loop, call,
    device (.bare .resetResponse), loop, loop, loop, call, call, loop, loop, loop, call,
    device (.ofKind .descriptorResponse [1, 0, 5, 1, 0, 97, 2, 1, 98, 0, 0, 0, 7, 0, 1]), loop, loop, loop,
    call, call, call, call, call, call,
    device (.ofKind .propertyNotification [0, 1, 98, 49]), loop, loop, loop, loop, .advance .dispatcher false]

/-- The device reports another value, a millisecond passes. -/
def reportedTwice : List Action :=
  let loop := Action.advance .loop false
  reportedOnce ++ [.receive (Frame.encode (Packet.ofKind .propertyNotification [0, 1, 98, 50]).toBytes),
    loop, loop, loop, loop, .pass 1]

/-- The property is written, and the device reports a third value in reply. -/
def written : List Action :=
  let call := Action.advance (.call 1) false
  let loop := Action.advance .loop false
  [.make (.operate (.write "b" "x")), call, call, call, loop, loop, loop, call,
    .receive (Frame.encode (Packet.ofKind .propertyNotification [0, 1, 98, 51]).toBytes), loop, loop, loop, call]

/-- The dispatcher finds the twin ready again. -/
def caughtUp : List Action :=
  [.pass 99, .advance .dispatcher false, .advance .dispatcher false]

/-- The property is written after the twin was told of both notifications. -/
def writtenAfter : List Action := reportedTwice ++ caughtUp ++ written

theorem values_inOrder_iff_writtenAfter :
    let h := ofSession {} (.scripted [] 0 100)
    (∀ a ∈ writtenAfter, a.viaSession) ∧ (∀ bs u v, ¬h.GetsAhead writtenAfter "b" bs u v) ∧
      (h.updates writtenAfter).map (fun u => (u.frame, u.value)) = [(2, "1"), (3, "2"), (4, "3")] := by
  intro h
  have hv : ∀ a ∈ writtenAfter, a.viaSession := by decide
  have hin : h.InOrder writtenAfter "b" := by
    unfold InOrder
    decide +kernel
  exact ⟨hv, ((values_inOrder_iff _ _ _ hv).2.2.2 "b").1.mp hin, by decide +kernel⟩

/-- The property is written while the second notification is queued. -/
def writtenPast : List Action := reportedTwice ++ written ++ caughtUp

/-- **The value in the reply to a write can get ahead of an older one:** the last value that the twin is told is not the
last that the device has reported. -/
theorem writtenPast_disordered :
    let h := ofSession {} (.scripted [] 0 100)
    (∀ a ∈ writtenPast, a.viaSession) ∧ ¬h.InOrder writtenPast "b" ∧
      (h.updates writtenPast).map (fun u => (u.frame, u.value)) = [(2, "1"), (4, "3"), (3, "2")] := by
  intro h
  refine ⟨by decide, ?_, by decide +kernel⟩
  unfold InOrder
  decide +kernel

end Host
end TwinLink
