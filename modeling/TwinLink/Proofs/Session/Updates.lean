import TwinLink.Proofs.Session.Notifications
import TwinLink.Proofs.Session.Registrations

/-!
# Where the values come from that the twin is told

The twin is told the value of a property by the dispatcher, when it takes up a notification, and by a call that takes up
the reply to its write. Either way the value is that of one frame, and until then the frame is on its way: queued for the
dispatcher, or delivered to the call.

* `Moment.update` : the update of the twin that is started; `Moment.number` : the number of the frame that is sorted;
* `Host.queued`, `Host.inHand`, `Host.onTheWay` : the frames on their way, each with its number;
* `Host.update`, `Host.updates` : the updates of a run, each with the number of the frame that it comes from;
* `Moment.told_cases` : the two ways in which the twin can be told; `Host.Pushes` : how the update comes from its frame;
* `Host.update_cases` : whatever the twin is told is an update that comes from a frame on its way.
-/

namespace TwinLink

/-! ## What is seen of updates -/

/-- The property, and the value of it, that the twin is told. -/
def Happening.update? : Happening → Option (String × String)
  | .toldTwin (.property _ name value) _ => some (name, value)
  | _ => none

/-- The packet is a notification of the property, and its data are the value under some schema. -/
structure Packet.Brings (p : Packet) (name value : String) : Prop where
  kind : p.kind? = some .propertyNotification
  value : ∃ payload schema, NamedPayload.decode p.payload = .ok payload ∧ payload.name = name ∧
    Schema.toText schema payload.data = .ok value

/-- The dispatcher takes a step. -/
def Action.byDispatcher : Action → Bool
  | .advance .dispatcher _ => true
  | _ => false

namespace Moment

/-- The values that the twin is told at this moment. -/
def told (m : Moment) : List (String × String) := m.news.filterMap (·.what.update?)

/-- The update of the twin that is started. -/
def update (m : Moment) : Option (String × String) := m.told.head?

/-- The number of the frame that is sorted: so many have been sorted before. -/
def number (m : Moment) : Nat := m.host.link.metrics.framesReceived

end Moment

/-- An update of the twin, with the number of the frame that its value comes from. It is `queued` if the dispatcher makes
it. -/
structure Update where
  frame : Nat
  name : String
  value : String
  queued : Bool
deriving DecidableEq, Repr

namespace Host

/-- What is seen at the moments at which frames are sorted, with the numbers of those frames. -/
def numberedIn {α : Type} (f : Moment → Option α) (h : Host) (bs : List Action) : List (Nat × α) :=
  (h.moments bs).filterMap fun m => (f m).map (m.number, ·)

/-- The packets that are passed on and that the listener has not taken, oldest first. -/
def queued (h : Host) (bs : List Action) : List (Nat × Packet) :=
  (numberedIn Moment.forwarded h bs).drop ((h.moments bs).filterMap Moment.taken).length

/-- The packets that registrations were served with and that their holders have not taken up. -/
def inHand (h : Host) (bs : List Action) : List (Nat × Waiter × Packet) :=
  (numberedIn Moment.served h bs).filter fun x => x.2.1.ticket ∈ (h.run bs).live

/-- The frames that are on their way to somebody. -/
def onTheWay (h : Host) (bs : List Action) : List Nat := (h.queued bs).map (·.1) ++ (h.inHand bs).map (·.1)

/-- The number of the frame that is taken up by the action `a`, after the actions `bs`: by the dispatcher the oldest that
is queued, and by a call the one in its hand. -/
def source (h : Host) (bs : List Action) (a : Action) : Option Nat :=
  if a.byDispatcher then (h.queued bs).head?.map (·.1)
  else (Moment.mk (h.run bs) a).returned.bind fun r => ((h.inHand bs).find? fun x => x.2.1.ticket = r.1).map (·.1)

/-- The update that the action `a` starts after the actions `bs`. -/
def update (h : Host) (bs : List Action) (a : Action) : Option Update :=
  (Moment.mk (h.run bs) a).update.bind fun x => (h.source bs a).map (⟨·, x.1, x.2, a.byDispatcher⟩)

/-- The updates that the actions `as` start after the actions `bs`. -/
def updatesAfter (h : Host) (bs : List Action) : List Action → List Update
  | [] => []
  | a :: as => (h.update bs a).toList ++ h.updatesAfter (bs ++ [a]) as

/-- The updates of a run, in the order in which they are started. -/
def updates (h : Host) (as : List Action) : List Update := h.updatesAfter [] as

theorem updatesAfter_concat (h : Host) (bs as : List Action) (a : Action) :
    h.updatesAfter bs (as ++ [a]) = h.updatesAfter bs as ++ (h.update (bs ++ as) a).toList := by
  induction as generalizing bs with
  | nil => simp [updatesAfter]
  | cons b as ih => simp [updatesAfter, ih]

theorem updates_concat (h : Host) (as : List Action) (a : Action) :
    h.updates (as ++ [a]) = h.updates as ++ (h.update as a).toList := h.updatesAfter_concat [] as a

theorem mem_updates {h : Host} {as : List Action} {u : Update} :
    u ∈ h.updates as ↔ ∃ bs a, bs ++ [a] <+: as ∧ h.update bs a = some u := by
  induction as using List.reverseRecOn with
  | nil => simp [updates, updatesAfter]
  | append_singleton as b ih =>
    rw [updates_concat, List.mem_append, ih, Option.mem_toList]
    constructor
    · rintro (⟨bs, a, hb, hu⟩ | hu)
      · exact ⟨bs, a, hb.trans (List.prefix_append _ _), hu⟩
      · exact ⟨as, b, List.prefix_rfl, hu⟩
    · rintro ⟨bs, a, hb, hu⟩
      rcases List.prefix_concat_iff.mp hb with he | hb
      · obtain ⟨rfl, hab⟩ := List.append_inj' he rfl
        obtain rfl := List.singleton_inj.mp hab
        exact .inr hu
      · exact .inl ⟨bs, a, hb, hu⟩

end Host

/-! ## Who tells the twin -/

/-- Who uses the session leaves the events of the link to it. -/
theorem Action.leavesEvents_of_viaSession {a : Action} (hv : a.viaSession) : a.leavesEvents := by
  cases a <;> first | rfl | cases hv

variable {h : Host} {c : Call} {q : Point} {m : Move}

/-- The values among some happenings that the twin is told. -/
def updatesOf (notes : List Happening) : List (String × String) := notes.filterMap Happening.update?

theorem updatesOf_map {notes : List Happening} (f : Happening → Note) (hf : ∀ x, (f x).what = x) :
    (notes.map f).filterMap (·.what.update?) = updatesOf notes := by
  rw [List.filterMap_map]
  exact List.filterMap_congr fun x _ => congrArg Happening.update? (hf x)

/-- What is only logged tells the twin nothing. -/
theorem updatesOf_logged {notes : List Happening} (hn : ∀ x ∈ notes, ∃ r, x = .logged r) : updatesOf notes = [] := by
  refine List.filterMap_eq_nil_iff.mpr fun x hx => ?_
  obtain ⟨r, rfl⟩ := hn x hx
  rfl

theorem updatesOf_phaseChange (a b : Phase) : updatesOf (phaseChange a b) = [] :=
  updatesOf_logged (phaseChange_logged a b)

@[simp] theorem updatesOf_nil : updatesOf [] = [] := rfl

@[simp] theorem updatesOf_logged_cons (r : Remark) (notes : List Happening) :
    updatesOf (.logged r :: notes) = updatesOf notes := rfl

theorem updatesOf_append (xs ys : List Happening) : updatesOf (xs ++ ys) = updatesOf xs ++ updatesOf ys :=
  List.filterMap_append

theorem Move.faulting_updates (l : Link) (s : Session) (notes : List Happening) (e : SessionError) :
    updatesOf (Move.faulting l s notes e).notes = updatesOf notes := by
  rw [Move.faulting, updatesOf_append, updatesOf_phaseChange]
  rfl

theorem Fails.updates {l : Link} {notes : List Happening} {purpose : Purpose} {e : LinkError}
    (hf : Fails h l notes purpose e m) : updatesOf m.notes = updatesOf notes := by
  cases hf with
  | fault => exact Move.faulting_updates _ _ _ _
  | _ => rfl

theorem Attempts.updates {l : Link} {s : Session} {notes : List Happening} {stage : Stage} {retries : Nat}
    (ha : Attempts l s notes stage retries m) : updatesOf m.notes = updatesOf notes := by
  cases ha with
  | opened => rfl
  | closed => exact Move.faulting_updates _ _ _ _

/-- A call tells the twin of a value only when it takes up the reply to its write. -/
theorem CallMove.updates (hm : CallMove h c q m)
    (hq : ∀ d todo pending, q = .registering d todo pending → ∀ call ∈ todo, call.registers) :
    updatesOf m.happenings = [] ∨ ∃ ticket limit alarm plan p value,
      q = .awaiting ticket limit alarm (.operation plan) ∧ plan.kind = .write ∧
        h.link.delivery? ticket.id = some (.ok p) ∧ plan.read p = .ok value ∧
        updatesOf m.happenings = [(plan.name, value)] := by
  have hnone : updatesOf m.notes = [] → updatesOf m.happenings = [] := by
    intro hn
    unfold Move.happenings
    split
    · exact hn
    · exact hn
  cases hm with
  | begin hm =>
    refine .inl (hnone ?_)
    cases hm with
    | start hp ht ha => rw [ha.updates, updatesOf_phaseChange]
    | closeIdle | close => exact updatesOf_phaseChange _ _
    | _ => rfl
  | shutOut frame ticket limit purpose hc hf => exact .inl (hnone hf.updates)
  | unwritten ticket limit purpose e hr hf => exact .inl (hnone hf.updates)
  | failed ticket limit alarm purpose e hd hf => exact .inl (hnone hf.updates)
  | timedOut ticket limit alarm purpose hd ha hf => exact .inl (hnone hf.updates)
  | taken ticket limit alarm plan p hd value hr hk hcall =>
    subst hcall
    exact .inr ⟨ticket, limit, alarm, plan, p, value, rfl, hk, hd, hr, rfl⟩
  | acknowledged ticket limit alarm retries p hd ha =>
    refine .inl (hnone ?_)
    rw [ha.updates, updatesOf_append, updatesOf_phaseChange]
    rfl
  | misdescribed => exact .inl (hnone (Move.faulting_updates _ _ _ _))
  | described =>
    refine .inl (hnone ?_)
    rw [updatesOf_append, updatesOf_phaseChange]
    rfl
  | paused alarm stage retries ha hm => exact .inl (hnone hm.updates)
  | asked d call todo =>
    have hr := hq d _ _ rfl call List.mem_cons_self
    cases call with
    | publish | bind => exact .inl rfl
    | event | property => cases hr
  | refused => exact .inl (hnone (Move.faulting_updates _ _ _ _))
  | started d =>
    refine .inl (hnone ?_)
    rw [updatesOf_append, updatesOf_phaseChange, List.nil_append]
    exact List.filterMap_eq_nil_iff.mpr fun x hx => by obtain ⟨i, -, rfl⟩ := List.mem_map.mp hx; rfl
  | updated plan value pending =>
    refine .inl (hnone ?_)
    cases pending.refusal <;> rfl
  | _ => exact .inl rfl

/-- The dispatcher tells the twin of a value only when it takes up a notification. -/
theorem DispatchMove.updates {p : DispatchPoint} {t : DispatchTurn} (hm : DispatchMove h p t) :
    updatesOf t.notes = [] ∨ ∃ packet events woken name value, p = .listening ∧
      h.link.events.take? = some (.packet packet, events, woken) ∧ packet.Brings name value ∧
      updatesOf t.notes = [(name, value)] := by
  cases hm with
  | reports he hp hd hu =>
    have hobserved : ∀ (n : Nat) (call : TwinCall),
        updatesOf ((List.range n).reverse.map (Happening.observed · call)) = [] := by
      intro n call
      refine List.filterMap_eq_nil_iff.mpr fun x hx => ?_
      obtain ⟨i, -, rfl⟩ := List.mem_map.mp hx
      rfl
    cases Descriptor.understand_eq_ok_iff.mp hu with
    | event => exact .inl (hobserved _ _)
    | property payload i x value hk hp hf hv =>
      refine .inr ⟨_, _, _, payload.name, value, rfl, he, ⟨hk, payload, x.schema, hp, rfl, hv⟩, ?_⟩
      exact congrArg ((payload.name, value) :: ·) (hobserved _ _)
  | ends he hn =>
    subst hn
    refine .inl ?_
    split
    · rfl
    · rw [updatesOf_append, updatesOf_phaseChange]
      rfl
  | @reported call pending ha =>
    refine .inl ?_
    dsimp only
    cases pending.refusal <;> rfl
  | _ => exact .inl rfl

namespace Moment

/-- **Who tells the twin of a value:** the dispatcher, which takes up a packet that brings it, or a call that has got it in
reply to its write. -/
theorem told_cases {m : Moment} (hcl : m.host.Claimed) (hs : m.host.Registers) : m.told = [] ∨ ∃ name value, m.told = [(name, value)] ∧
    ((∃ i p, m.action = .advance .dispatcher i ∧ m.taken = some (.packet p) ∧ p.Brings name value) ∨
      ∃ id i c ticket plan p, m.action = .advance (.call id) i ∧ c ∈ m.host.calls ∧ c.point.ticket? = some ticket ∧
        c.point.plan? = some plan ∧ plan.kind = .write ∧ plan.name = name ∧ plan.read p = .ok value ∧
        m.returned = some (ticket, .ok p)) := by
  obtain ⟨h, a⟩ := m
  have hacts := Moment.acts (m := ⟨h, a⟩) hcl
  have htold : ∀ notes, (Moment.mk h a).after.history = notes ++ h.history →
      (Moment.mk h a).told = notes.filterMap (·.what.update?) := fun notes hn => by rw [told, news_eq hn]
  generalize (Moment.mk h a).after = h' at hacts htold
  cases hacts with
  | loop i hm ht =>
    rw [htold _ ht.history, updatesOf_map _ fun _ => rfl]
    exact .inl (updatesOf_logged hm.logged)
  | dispatcher i hm ht =>
    rw [htold _ ht.history, updatesOf_map _ fun _ => rfl]
    rcases hm.updates with hn | ⟨p, events, woken, name, value, hd, he, hb, hn⟩
    · exact .inl hn
    · refine .inr ⟨name, value, hn, .inl ⟨i, p, rfl, ?_, hb⟩⟩
      rw [dispatch_taken hd, he]
      rfl
  | @call id i c mv h' hc hm hl =>
    rw [htold _ hl.history, updatesOf_map _ fun _ => rfl]
    rcases hm.updates fun d todo pending hq => hs c (Host.call?_mem hc) d todo pending hq with
      hn | ⟨ticket, limit, alarm, plan, p, value, hq, hk, hd, hr, hn⟩
    · exact .inl hn
    · refine .inr ⟨plan.name, value, hn, .inr ⟨id, i, c, ticket, plan, p, rfl, Host.call?_mem hc, by rw [hq]; rfl,
        by rw [hq]; rfl, hk, rfl, hr, ?_⟩⟩
      have hw : (Moment.mk h (.advance (.call id) i)).waiting = some (ticket, alarm) := by
        show Option.bind (h.call? id) _ = _
        rw [hc, Option.bind_some, hq]
      rw [returned_eq hw, Host.outcome?, hd]
      rfl
  | _ => exact .inl (htold [] rfl)

end Moment

/-! ## Numbers of frames -/

namespace Moment

/-- What is passed on or served is a frame that is sorted. -/
theorem sorted_of_forwarded {m : Moment} (hf : m.forwarded.isSome) : m.sorted.isSome := by
  by_contra hn
  rw [forwarded_none (by simpa using hn)] at hf
  cases hf

theorem sorted_of_served {m : Moment} (hf : m.served.isSome) : m.sorted.isSome := by
  by_contra hn
  rw [served_none (by simpa using hn)] at hf
  cases hf

/-- What is passed on is the packet of the frame. -/
theorem packet_of_forwarded {m : Moment} {p : Packet} (hf : m.forwarded = some p) : m.packet = some p := by
  obtain ⟨frame, hs, hf⟩ := Option.bind_eq_some_iff.mp hf
  refine packet_eq_some.mpr ⟨frame, hs, ?_⟩
  cases hp : Packet.ofFrame frame with
  | error e => rw [hp] at hf; cases hf
  | ok q =>
    rw [hp] at hf
    dsimp only at hf
    split_ifs at hf
    exact congrArg Except.ok (Option.some.inj hf)

theorem packet_of_served {m : Moment} {x : Waiter × Packet} (hf : m.served = some x) : m.packet = some x.2 := by
  obtain ⟨frame, hs, hf⟩ := Option.bind_eq_some_iff.mp hf
  refine packet_eq_some.mpr ⟨frame, hs, ?_⟩
  cases hp : Packet.ofFrame frame with
  | error e => rw [hp] at hf; cases hf
  | ok q =>
    rw [hp] at hf
    obtain ⟨y, -, rfl⟩ := Option.map_eq_some_iff.mp hf
    rfl

/-- A frame is not both passed on and served. -/
theorem served_of_forwarded {m : Moment} (hf : m.forwarded.isSome) : m.served = none := by
  obtain ⟨p, hp⟩ := Option.isSome_iff_exists.mp hf
  obtain ⟨frame, hs⟩ := Option.isSome_iff_exists.mp (sorted_of_forwarded hf)
  unfold served
  rw [hs, Option.bind_some]
  cases hpk : Packet.ofFrame frame with
  | error e => rfl
  | ok q =>
    rw [forwarded_eq hs hpk] at hp
    cases ht : m.host.link.table.takeMatch? q with
    | none =>
      dsimp only
      rw [ht]
      rfl
    | some x =>
      rw [ht] at hp
      simp at hp

end Moment

namespace Host

variable {config : SessionConfig} {twin : Twin} {as bs cs : List Action} {a : Action} {u : Update}

/-- So many frames have been sorted. -/
def sortedBy (h : Host) (bs : List Action) : Nat := (h.run bs).link.metrics.framesReceived

theorem sortedBy_eq : (ofSession config twin).sortedBy bs =
    (((ofSession config twin).moments bs).filterMap Moment.sorted).length :=
  ((Setup.session config twin).counted_run bs).frames

theorem sortedBy_mono (hb : bs <+: cs) : (ofSession config twin).sortedBy bs ≤ (ofSession config twin).sortedBy cs := by
  rw [sortedBy_eq, sortedBy_eq]
  exact ((moments_mono _ hb).filterMap _).length_le

theorem sortedBy_lt (hs : (Moment.mk ((ofSession config twin).run bs) a).sorted.isSome) :
    (ofSession config twin).sortedBy bs < (ofSession config twin).sortedBy (bs ++ [a]) := by
  obtain ⟨frame, hs⟩ := Option.isSome_iff_exists.mp hs
  rw [sortedBy_eq, sortedBy_eq, seen_concat, hs]
  simp

section

variable {α : Type} {f : Moment → Option α}

theorem numberedIn_concat (f : Moment → Option α) (h : Host) (bs : List Action) (a : Action) :
    numberedIn f h (bs ++ [a]) = numberedIn f h bs ++ ((f ⟨h.run bs, a⟩).map (h.sortedBy bs, ·)).toList :=
  seen_concat _ h bs a

theorem numberedIn_map (f : Moment → Option α) (h : Host) (bs : List Action) :
    (numberedIn f h bs).map (·.2) = (h.moments bs).filterMap f := by
  unfold numberedIn
  rw [List.map_filterMap]
  refine List.filterMap_congr fun m _ => ?_
  rw [Option.map_map]
  exact Option.map_id'

/-- Frames are numbered in the order in which they are sorted. -/
theorem numberedIn_ordered (hf : ∀ m : Moment, (f m).isSome → m.sorted.isSome) :
    (numberedIn f (ofSession config twin) bs).Pairwise (fun x y => x.1 < y.1) ∧
      ∀ x ∈ numberedIn f (ofSession config twin) bs, x.1 < (ofSession config twin).sortedBy bs := by
  induction bs using List.reverseRecOn with
  | nil => exact ⟨.nil, List.forall_mem_nil _⟩
  | append_singleton bs a ih =>
    rw [numberedIn_concat]
    cases hx : f ⟨(ofSession config twin).run bs, a⟩ with
    | none =>
      rw [Option.map_none, Option.toList_none, List.append_nil]
      exact ⟨ih.1, fun x h => Nat.lt_of_lt_of_le (ih.2 x h) (sortedBy_mono (List.prefix_append _ _))⟩
    | some y =>
      have hlt := sortedBy_lt (hf _ (by rw [hx]; rfl))
      rw [Option.map_some, Option.toList_some]
      refine ⟨List.pairwise_append.mpr ⟨ih.1, List.pairwise_singleton _ _, fun x h z hz => ?_⟩, fun x h => ?_⟩
      · obtain rfl := List.mem_singleton.mp hz
        exact ih.2 x h
      · rcases List.mem_append.mp h with h | h
        · exact Nat.lt_trans (ih.2 x h) hlt
        · obtain rfl := List.mem_singleton.mp h
          exact hlt

end

/-- A number belongs to one frame. -/
theorem eq_of_number {n : Nat} {m m' : Moment} (hm : m ∈ (ofSession config twin).moments bs)
    (hm' : m' ∈ (ofSession config twin).moments bs) (hs : m.sorted.isSome) (hs' : m'.sorted.isSome)
    (hn : m.number = n) (hn' : m'.number = n) : m = m' := by
  let f : Moment → Option Moment := fun m => m.sorted.map fun _ => m
  have hf : ∀ m : Moment, (f m).isSome → m.sorted.isSome := by
    intro m h
    rwa [Option.isSome_map] at h
  have hmem : ∀ {x : Moment}, x ∈ (ofSession config twin).moments bs → x.sorted.isSome → x.number = n →
      (n, x) ∈ numberedIn f (ofSession config twin) bs := by
    intro x hx hs hn
    obtain ⟨frame, hs⟩ := Option.isSome_iff_exists.mp hs
    refine List.mem_filterMap.mpr ⟨x, hx, ?_⟩
    show Option.map _ (x.sorted.map fun _ => x) = _
    rw [hs, ← hn]
    rfl
  have hnodup : ((numberedIn f (ofSession config twin) bs).map (·.1)).Nodup :=
    List.pairwise_map.mpr ((numberedIn_ordered hf).1.imp Nat.ne_of_lt)
  exact congrArg Prod.snd (List.inj_on_of_nodup_map hnodup (hmem hm hs hn) (hmem hm' hs' hn') rfl)

/-- A frame is on its way to one place. -/
theorem disjoint_numbers {n : Nat} {p : Packet} {x : Waiter × Packet}
    (hq : (n, p) ∈ numberedIn Moment.forwarded (ofSession config twin) bs) :
    (n, x) ∉ numberedIn Moment.served (ofSession config twin) bs := by
  intro hs
  obtain ⟨m, hm, hp⟩ := List.mem_filterMap.mp hq
  obtain ⟨m', hm', hx⟩ := List.mem_filterMap.mp hs
  obtain ⟨p', hp, he⟩ := Option.map_eq_some_iff.mp hp
  obtain ⟨x', hx, he'⟩ := Option.map_eq_some_iff.mp hx
  have hf : m.forwarded.isSome := by rw [hp]; rfl
  have hf' : m'.served.isSome := by rw [hx]; rfl
  have hmm : m = m' := eq_of_number hm hm' (Moment.sorted_of_forwarded hf) (Moment.sorted_of_served hf')
    (congrArg Prod.fst he) (congrArg Prod.fst he')
  rw [← hmm, Moment.served_of_forwarded hf] at hf'
  cases hf'

/-! ## Frames on their way -/

/-- What is queued was queued before, or has just been passed on. The listener takes the oldest. -/
theorem queued_concat (h : Host) (bs : List Action) (a : Action) :
    (h.queued (bs ++ [a])).Sublist ((h.queued bs).drop (Moment.mk (h.run bs) a).taken.toList.length ++
      ((Moment.mk (h.run bs) a).forwarded.map (h.sortedBy bs, ·)).toList) := by
  unfold queued
  rw [numberedIn_concat, seen_concat, List.length_append, List.drop_drop, List.drop_append]
  exact (List.Sublist.refl _).append (List.drop_sublist _ _)

/-- What is in somebody's hand was there before, or has just been delivered. -/
theorem mem_inHand_concat {x : Nat × Waiter × Packet} (hx : x ∈ (ofSession config twin).inHand (bs ++ [a])) :
    x.2.1.ticket ∈ ((ofSession config twin).run (bs ++ [a])).live ∧ (x ∈ (ofSession config twin).inHand bs ∨
      x.1 = (ofSession config twin).sortedBy bs ∧
        (Moment.mk ((ofSession config twin).run bs) a).served = some x.2) := by
  obtain ⟨hmem, hlive⟩ := List.mem_filter.mp hx
  have hlive := of_decide_eq_true hlive
  refine ⟨hlive, ?_⟩
  rw [numberedIn_concat] at hmem
  rcases List.mem_append.mp hmem with hmem | hnew
  · -- whose ticket is held was served before, and held its ticket then
    have hk := (Setup.session config twin).kept_run bs
    have hserved : x.2 ∈ ((ofSession config twin).moments bs).filterMap Moment.served := by
      rw [← numberedIn_map]
      exact List.mem_map_of_mem hmem
    refine .inl (List.mem_filter.mpr ⟨hmem, decide_eq_true ?_⟩)
    exact ((Setup.session config twin).live_mono bs [a]).2 _ (hk.fresh _ (hk.accepted _ hserved).1) hlive
  · obtain ⟨y, hy, rfl⟩ := Option.map_eq_some_iff.mp (Option.mem_toList.mp hnew)
    exact .inr ⟨rfl, hy⟩

theorem mem_onTheWay {h : Host} {n : Nat} :
    n ∈ h.onTheWay bs ↔ (∃ p, (n, p) ∈ h.queued bs) ∨ ∃ x, (n, x) ∈ h.inHand bs := by
  simp [onTheWay]

/-- A frame that is on its way has been sorted. -/
theorem onTheWay_lt {n : Nat} (hn : n ∈ (ofSession config twin).onTheWay bs) :
    n < (ofSession config twin).sortedBy bs := by
  rcases mem_onTheWay.mp hn with ⟨p, hp⟩ | ⟨x, hx⟩
  · exact (numberedIn_ordered fun _ => Moment.sorted_of_forwarded).2 _ ((List.drop_sublist _ _).subset hp)
  · exact (numberedIn_ordered fun _ => Moment.sorted_of_served).2 _ (List.mem_filter.mp hx).1

/-- What is queued was queued before, or its frame has been sorted since. -/
theorem queued_earlier (hb : bs <+: cs) {x : Nat × Packet} (hx : x ∈ (ofSession config twin).queued cs) :
    x ∈ (ofSession config twin).queued bs ∨ (ofSession config twin).sortedBy bs ≤ x.1 := by
  obtain ⟨ds, rfl⟩ := hb
  induction ds using List.reverseRecOn with
  | nil => rw [List.append_nil] at hx; exact .inl hx
  | append_singleton ds d ih =>
    rw [← List.append_assoc] at hx
    rcases List.mem_append.mp ((queued_concat _ _ _).subset hx) with hx | hx
    · exact ih ((List.drop_sublist _ _).subset hx)
    · obtain ⟨p, -, rfl⟩ := Option.map_eq_some_iff.mp (Option.mem_toList.mp hx)
      exact .inr (sortedBy_mono (List.prefix_append _ _))

theorem inHand_earlier (hb : bs <+: cs) {x : Nat × Waiter × Packet} (hx : x ∈ (ofSession config twin).inHand cs) :
    x ∈ (ofSession config twin).inHand bs ∨ (ofSession config twin).sortedBy bs ≤ x.1 := by
  obtain ⟨ds, rfl⟩ := hb
  induction ds using List.reverseRecOn with
  | nil => rw [List.append_nil] at hx; exact .inl hx
  | append_singleton ds d ih =>
    rw [← List.append_assoc] at hx
    rcases (mem_inHand_concat hx).2 with hx | ⟨he, -⟩
    · exact ih hx
    · exact .inr (Nat.le_trans (sortedBy_mono (List.prefix_append _ _)) (Nat.le_of_eq he.symm))

/-- A frame that is on its way was so before, or has been sorted since. -/
theorem onTheWay_earlier (hb : bs <+: cs) {n : Nat} (hn : n ∈ (ofSession config twin).onTheWay cs) :
    n ∈ (ofSession config twin).onTheWay bs ∨ (ofSession config twin).sortedBy bs ≤ n := by
  rcases mem_onTheWay.mp hn with ⟨p, hp⟩ | ⟨x, hx⟩
  · exact (queued_earlier hb hp).imp_left fun hp => mem_onTheWay.mpr (.inl ⟨p, hp⟩)
  · exact (inHand_earlier hb hx).imp_left fun hx => mem_onTheWay.mpr (.inr ⟨x, hx⟩)

/-- Where no frame is sorted nothing new is on its way. -/
theorem quiet_concat (hs : (Moment.mk ((ofSession config twin).run bs) a).sorted = none) :
    ((ofSession config twin).queued (bs ++ [a])).Sublist (((ofSession config twin).queued bs).drop
      (Moment.mk ((ofSession config twin).run bs) a).taken.toList.length) ∧
    ∀ x ∈ (ofSession config twin).inHand (bs ++ [a]), x ∈ (ofSession config twin).inHand bs ∧
      x.2.1.ticket ∈ ((ofSession config twin).run (bs ++ [a])).live := by
  constructor
  · have hq := queued_concat (ofSession config twin) bs a
    rwa [Moment.forwarded_none hs, Option.map_none, Option.toList_none, List.append_nil] at hq
  · intro x hx
    obtain ⟨hlive, hx | ⟨-, hserved⟩⟩ := mem_inHand_concat hx
    · exact ⟨hx, hlive⟩
    · rw [Moment.served_none hs] at hserved
      cases hserved

/-! ## Who makes an update -/

/-- The two ways to make an update: the dispatcher takes up the oldest packet that is queued, or a call that has written a
property takes up the reply. -/
inductive Pushes (h : Host) (bs : List Action) : Action → Update → Prop
  | queue (i : Bool) {u : Update} {p : Packet} {rest : List (Nat × Packet)} (hq : h.queued bs = (u.frame, p) :: rest)
      (ht : (Moment.mk (h.run bs) (.advance .dispatcher i)).taken = some (.packet p)) (hb : p.Brings u.name u.value)
      (hu : u.queued = true) : Pushes h bs (.advance .dispatcher i) u
  | reply (id : Nat) (i : Bool) {u : Update} {c : Call} {w : Waiter} {plan : Plan} {p : Packet}
      (hc : c ∈ (h.run bs).calls) (ht : c.point.ticket? = some w.ticket) (hp : c.point.plan? = some plan)
      (hk : plan.kind = .write)
      (hw : (u.frame, w, p) ∈ h.inHand bs) (hgone : w.ticket ∉ (h.run (bs ++ [.advance (.call id) i])).live)
      (hb : p.Brings u.name u.value) (hu : u.queued = false) : Pushes h bs (.advance (.call id) i) u

/-- The oldest packet that is queued is the one that the listener takes. -/
theorem queued_of_taken {p : Packet} {i : Bool}
    (ht : (Moment.mk ((ofSession config twin).run bs) (.advance .dispatcher i)).taken = some (.packet p)) :
    ∃ n rest, (ofSession config twin).queued bs = (n, p) :: rest := by
  obtain ⟨closing, hp⟩ := (Setup.session config twin).passed_run (bs ++ [.advance .dispatcher i])
  have horder := hp.inOrder
  rw [Setup.host, seen_concat, seen_concat, ht, Moment.forwarded_none rfl, Option.toList_none, List.append_nil] at horder
  set k := (((ofSession config twin).moments bs).filterMap Moment.taken).length with hk
  have hat : ((((ofSession config twin).moments bs).filterMap Moment.forwarded).map .packet ++ closing)[k]? =
      some (.packet p) := by
    rw [List.prefix_iff_getElem?.mp horder k (by simp [hk])]
    simp [hk]
  -- it is no end of the link, so it has been passed on
  have hpassed : (((ofSession config twin).moments bs).filterMap Moment.forwarded)[k]? = some p := by
    by_cases hlt : k < (((ofSession config twin).moments bs).filterMap Moment.forwarded).length
    · rw [List.getElem?_append_left (by simpa using hlt), List.getElem?_map] at hat
      obtain ⟨q, hq, he⟩ := Option.map_eq_some_iff.mp hat
      cases he
      exact hq
    · rw [List.getElem?_append_right (by simpa using hlt)] at hat
      have hmem := List.mem_of_getElem? hat
      rcases hp.once with rfl | ⟨reason, rfl⟩
      · cases hmem
      · cases List.mem_singleton.mp hmem
  rw [← numberedIn_map, List.getElem?_map] at hpassed
  obtain ⟨⟨n, q⟩, hnq, rfl⟩ := Option.map_eq_some_iff.mp hpassed
  have hhead : ((ofSession config twin).queued bs).head? = some (n, q) := by
    rw [queued, List.head?_drop]
    exact hnq
  obtain ⟨rest, hrest⟩ := List.head?_eq_some_iff.mp hhead
  exact ⟨n, rest, hrest⟩

/-- The reply that a call takes up is in its hand, and no longer after that. -/
theorem inHand_of_returned {t : Ticket} {p : Packet}
    (hr : (Moment.mk ((ofSession config twin).run bs) a).returned = some (t, .ok p)) : ∃ n w,
      ((ofSession config twin).inHand bs).find? (fun x => x.2.1.ticket = t) = some (n, w, p) ∧ w.ticket = t ∧
        t ∉ ((ofSession config twin).run (bs ++ [a])).live := by
  have hk := (Setup.session config twin).kept_run bs
  obtain ⟨hlive, hgone, w, hw, rfl, hres⟩ := ((Setup.session config twin).settles bs a).returns t _ hr
  rw [run_concat]
  cases hres with
  | packet p hserved =>
    have hmem : ∀ {x : Nat × Waiter × Packet}, x ∈ (ofSession config twin).inHand bs →
        x.2 ∈ ((ofSession config twin).moments bs).filterMap Moment.served := by
      intro x hx
      rw [← numberedIn_map]
      exact List.mem_map_of_mem (List.mem_filter.mp hx).1
    obtain ⟨x, hx, hxw⟩ := List.mem_map.mp ((numberedIn_map Moment.served (ofSession config twin) bs) ▸ hserved)
    have hin : x ∈ (ofSession config twin).inHand bs :=
      List.mem_filter.mpr ⟨hx, decide_eq_true (by rw [hxw]; exact hlive)⟩
    obtain ⟨⟨n, v, q⟩, hfind⟩ := Option.isSome_iff_exists.mp (List.find?_isSome (p := fun x : Nat × Waiter × Packet =>
      decide (x.2.1.ticket = w.ticket)) |>.mpr ⟨x, hin, by rw [hxw]; simp⟩)
    -- no other reply was delivered to it
    have hv := hmem (List.mem_of_find?_eq_some hfind)
    have hvw : v.ticket = w.ticket := by simpa using List.find?_some hfind
    obtain rfl : v = w := hk.eq_of_id (hk.accepted _ hv).1 hw (congrArg Ticket.id hvw)
    obtain rfl := hk.eq_of_taken hv hserved
    exact ⟨n, v, hfind, rfl, hgone⟩

/-- The reply to a write brings the value that the call tells the twin. -/
theorem brings_of_reply {plan : Plan} {p : Packet} {value : String} (hk : plan.kind = .write) (ha : p.Answers plan)
    (hr : plan.read p = .ok value) : p.Brings plan.name value := by
  obtain ⟨payload, hdec, hpn, hread⟩ := Plan.read_of_answers ha
  have htype := ha.1
  rw [hk] at htype
  refine ⟨by rw [Packet.kind?, htype]; rfl, payload, plan.result, hdec, hpn, ?_⟩
  rw [hread] at hr
  cases ht : plan.result.toText payload.data with
  | error e => rw [ht] at hr; cases hr
  | ok text => rw [ht] at hr; cases hr; rfl

/-- **Every value that the twin is told comes from a frame that was on its way.** -/
theorem update_cases (hv : ∀ b ∈ bs, b.viaSession) (a : Action) :
    ((Moment.mk ((ofSession config twin).run bs) a).told = [] ∧ (ofSession config twin).update bs a = none) ∨
    ∃ u, (Moment.mk ((ofSession config twin).run bs) a).told = [(u.name, u.value)] ∧
      (ofSession config twin).update bs a = some u ∧ (ofSession config twin).Pushes bs a u := by
  have hs := switched_run config twin bs fun b hb => Action.leavesEvents_of_viaSession (hv b hb)
  rcases Moment.told_cases (m := ⟨(ofSession config twin).run bs, a⟩) ((Setup.session config twin).claimed_run bs)
    fun c hc d todo pending hq => (hs.registering c hc d todo pending hq).2 with hnone | ⟨name, value, htold, hwho⟩
  · refine .inl ⟨hnone, ?_⟩
    unfold update Moment.update
    rw [hnone]
    rfl
  · have hupdate : (Moment.mk ((ofSession config twin).run bs) a).update = some (name, value) := by
      rw [Moment.update, htold]
      rfl
    rcases hwho with ⟨i, p, ha, ht, hb⟩ | ⟨id, i, c, t, plan, p, ha, hc, hct, hcp, hk, rfl, hr, hret⟩
    · obtain rfl : a = _ := ha
      obtain ⟨n, rest, hq⟩ := queued_of_taken ht
      refine .inr ⟨⟨n, name, value, true⟩, htold, ?_, .queue i hq ht hb rfl⟩
      have hby : (Action.advance .dispatcher i).byDispatcher = true := rfl
      rw [update, hupdate, Option.bind_some, source, if_pos hby, hq]
      rfl
    · obtain rfl : a = _ := ha
      obtain ⟨n, w, hfind, rfl, hgone⟩ := inHand_of_returned hret
      have hin := List.mem_of_find?_eq_some hfind
      -- the registration is the one that the plan called for
      have hkept := (Setup.session config twin).kept_run bs
      have hserved : (w, p) ∈ ((ofSession config twin).moments bs).filterMap Moment.served := by
        rw [← numberedIn_map]
        exact List.mem_map.mpr ⟨_, (List.mem_filter.mp hin).1, rfl⟩
      obtain ⟨hw, haccepts⟩ := hkept.accepted _ hserved
      obtain ⟨-, hopened⟩ := (bound_run hv).planned c hc _ plan hct hcp
      have hplan : plan.waiter w.id = w := hkept.eq_of_id hopened hw rfl
      rw [← hplan, Plan.waiter_accepts] at haccepts
      refine .inr ⟨⟨n, plan.name, value, false⟩, htold, ?_,
        .reply id i hc hct hcp hk hin hgone (brings_of_reply hk haccepts hr) rfl⟩
      have hby : (Action.advance (.call id) i).byDispatcher = false := rfl
      rw [update, hupdate, Option.bind_some, source, hby, if_neg Bool.false_ne_true, hret, Option.bind_some, hfind]
      rfl

end Host
end TwinLink
