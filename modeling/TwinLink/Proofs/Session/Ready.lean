import TwinLink.Proofs.Session.Closed
import TwinLink.Proofs.Session.Costs
import TwinLink.Proofs.Session.Notifications

/-!
# An operational session is ready

A session becomes operational in one step, the last of its start. By then the link is there, the device has described
itself and the twin has taken all of it, and nothing undoes any of this: a session that has been operational knows its
device for the rest of its run. So nobody who finds a session operational finds it without its device.

* `Host.registering_run` : a start makes the device known to the twin that the session knows, in every run;
* `Acts.launches` : the step in which a session becomes operational;
* `Host.launch_of_wasOperational`, `Host.descriptor_mono` : the start that has led there, and what stays from then on;
* `Host.Ready` : a session that is ready for use, and how it has come to be; `Host.ready_of_wasOperational`;
* `Moment.Disposes` : what becomes of a packet that the dispatcher takes up;
* `Host.operational_ready` : operational sessions, in every run.
-/

namespace TwinLink

variable {h h' : Host} {c : Call} {m : Move} {a : Action}

/-! ## The step that makes a session operational -/

theorem Host.Registering.acts (hr : h.Registering) (ho : Orderly h) (ha : Acts h a h') : h'.Registering := by
  cases ha with
  | loop i hm ht =>
    unfold Registering
    rw [ht.calls, ht.session]
    exact hr
  | dispatcher i hm ht =>
    unfold Registering
    rw [ht.calls, ht.session, hm.descriptor]
    exact hr
  | call i hc hm hl =>
    intro x hx d todo pending hq
    rw [hl.session, Move.sessionAfter_descriptor]
    exact hr.call ho (call?_mem hc) hm (hl.calls ▸ hx) hq
  | make r hm ready =>
    intro x hx d todo pending hq
    rcases List.mem_append.mp hx with hx | hx
    · exact hr x hx d todo pending hq
    · obtain rfl := List.mem_singleton.mp hx
      cases hq
  | abandon hc released hre ready =>
    intro x hx d todo pending hq
    rw [Session.vacate_descriptor]
    exact hr x (List.mem_filter.mp hx).1 d todo pending hq
  | _ => exact hr

theorem Host.registering_run (config : SessionConfig) (twin : Twin) (as : List Action) :
    ((ofSession config twin).run as).Registering := by
  induction as using List.reverseRecOn with
  | nil => exact fun c hc => absurd hc List.not_mem_nil
  | append_singleton as a ih =>
    rw [run_concat]
    exact ih.acts (orderly_run config twin as) (acts_ofSession config twin _ a)

/-- **A session becomes operational as its start gives the device to its caller,** and in no other step. -/
theorem Acts.launches (ha : Acts h a h') (hno : h.wasOperational = false) (hw : h'.wasOperational) :
    ∃ id i c d m, a = .advance (.call id) i ∧ h.call? id = some c ∧ c.point = .registering d [] none ∧
      CallMove h c c.point m ∧ h.Leaves c m h' ∧ m.fate = .ends (.ok (.device d)) := by
  have hsame : h'.wasOperational ≠ h.wasOperational := by rw [hno, hw]; decide
  cases ha with
  | loop i hm ht => exact absurd (hm.wasOperational ht) hsame
  | dispatcher i hm ht => exact absurd (hm.wasOperational ht) hsame
  | @call id i c m _ hc hm hl =>
    rcases hm.switch with ⟨⟨d, hq⟩, hdone⟩ | ⟨-, hch⟩
    · refine ⟨id, i, c, d, m, rfl, hc, hq, hm, hl, ?_⟩
      have hphase := hdone.phase
      rw [hq] at hm
      cases hm with
      | started d => rfl
    · exact absurd (hl.wasOperational hch) hsame
  | _ => exact absurd rfl hsame

namespace Host

variable {config : SessionConfig} {twin : Twin} {as : List Action}

/-- **A session that has been operational was launched by a start,** from which it knows its device. -/
theorem launch_of_wasOperational (hw : ((ofSession config twin).run as).wasOperational) : ∃ bs a id d, bs ++ [a] <+: as ∧
    (Moment.mk ((ofSession config twin).run bs) a).Answers id (.ok (.device d)) ∧
    (Moment.mk ((ofSession config twin).run bs) a).Registers ((ofSession config twin).startRecord (bs ++ [a]))
      config.revision id d ∧
    ((ofSession config twin).run (bs ++ [a])).session.descriptor = some d := by
  induction as using List.reverseRecOn with
  | nil => cases hw
  | append_singleton as a ih =>
    by_cases hbefore : ((ofSession config twin).run as).wasOperational
    · obtain ⟨bs, b, id, d, hb, hlaunch⟩ := ih hbefore
      exact ⟨bs, b, id, d, hb.trans (List.prefix_append as [a]), hlaunch⟩
    · have hacts := acts_ofSession config twin as a
      rw [run_concat] at hw
      obtain ⟨id, i, c, d, m, rfl, hc, hq, hm, hl, hf⟩ := hacts.launches (by simpa using hbefore) hw
      have hmem := call?_mem hc
      have hanswers : (Moment.mk ((ofSession config twin).run as) (.advance (.call id) i)).Answers c.id (.ok (.device d)) :=
        Moment.answers_of_ends hl hf
      have htook := (starting_run config twin as).ours c hmem (.inl (by rw [hq]; exact nofun))
      refine ⟨as, _, c.id, d, List.prefix_refl _, hanswers, ?_, ?_⟩
      · obtain ⟨d', he, hregisters⟩ | ⟨e, he, -⟩ := ends_of_took hanswers htook
        · cases he
          exact hregisters
        · cases he
      · rw [run_concat, hl.session, Move.sessionAfter_descriptor]
        rw [hq] at hm
        cases hm with
        | started d => exact (registering_run config twin as c hmem d [] none hq).1

/-- What a session knows of its device once it has been operational, it knows for the rest of its run. -/
theorem descriptor_mono (hw : ((ofSession config twin).run as).wasOperational) (bs : List Action) :
    ((ofSession config twin).run (as ++ bs)).session.descriptor = ((ofSession config twin).run as).session.descriptor := by
  induction bs using List.reverseRecOn with
  | nil => rw [List.append_nil]
  | append_singleton bs b ih =>
    have hstill : ((ofSession config twin).run (as ++ bs)).wasOperational := by
      rw [run_append]
      exact wasOperational_mono ((Setup.session config twin).tidy_run as) hw bs
    rw [← List.append_assoc, run_concat, ← ih]
    exact (launched_run config twin (as ++ bs)).descriptor hstill (acts_ofSession config twin _ b)

/-! ## Ready for use -/

/-- The twin was asked this and has accepted it. -/
def Accepted (h : Host) (call : TwinCall) : Prop := ∃ n ∈ h.history, ∃ v : Verdict, n.what = .toldTwin call v ∧ v.accepts

/-- A session that is ready for use after the actions `as`, `d` being its device. -/
structure Ready (start : Host) (revision : Revision) (as : List Action) (d : Descriptor) : Prop where
  /-- The link is there, and nobody else can take the byte stream. -/
  transport : (start.run as).link.loop ≠ .absent
  portTaken : (start.run as).session.portTaken
  /-- The session knows its device, and for good, -/
  known : ∀ bs, (start.run (as ++ bs)).session.descriptor = some d
  /-- by what the device has sent in reply to the request for it. -/
  described : ∃ w p, (w, p) ∈ (start.moments as).filterMap Moment.served ∧
    p.type = PacketKind.descriptorResponse.code ∧ Descriptor.parse revision p.payload = .ok d
  /-- One start has told the twin of the device before it announced anything, each interface in its order, and the twin has
  accepted every call: -/
  told : ∃ (id : Nat) (told : List (TwinCall × Verdict)), told.map (·.1) = d.registration ∧
    (∀ x ∈ told, x.2.accepts) ∧ told.map toldOf <+: (start.run as).course id
  /-- every interface was published and bound. -/
  registered : ∀ i ∈ d.interfaces, (start.run as).Accepted (.publish i.id) ∧ (start.run as).Accepted (.bind i.id)

theorem mem_course {x : Happening} {id : Nat} (hx : x ∈ h.course id) : ∃ n ∈ h.history, n.what = x := by
  obtain ⟨n, hn, he⟩ := List.mem_map.mp (List.mem_reverse.mp hx)
  exact ⟨n, (List.mem_filter.mp hn).1, he⟩

/-- What a start has told the twin of a device was accepted, interface by interface. -/
theorem accepted_of_course {d : Descriptor} {id : Nat} {told : List (TwinCall × Verdict)}
    (hall : told.map (·.1) = d.registration) (haccepts : ∀ x ∈ told, x.2.accepts)
    (hcourse : told.map toldOf <+: h.course id) {call : TwinCall} (hc : call ∈ d.registration) : h.Accepted call := by
  rw [← hall] at hc
  obtain ⟨x, hx, rfl⟩ := List.mem_map.mp hc
  obtain ⟨n, hn, he⟩ := mem_course (hcourse.subset (List.mem_map_of_mem hx))
  exact ⟨n, hn, x.2, he, haccepts x hx⟩

/-- **A session that has been operational is ready.** -/
theorem ready_of_wasOperational (hw : ((ofSession config twin).run as).wasOperational) :
    ∃ d, (ofSession config twin).Ready config.revision as d := by
  obtain ⟨bs, a, id, d, ⟨cs, rfl⟩, hanswers, hregisters, hdesc⟩ := launch_of_wasOperational hw
  have hafter : (Moment.mk ((ofSession config twin).run bs) a).after = (ofSession config twin).run (bs ++ [a]) :=
    (run_concat _ bs a).symm
  have hlaunched : ((ofSession config twin).run (bs ++ [a])).wasOperational :=
    (launched_run config twin (bs ++ [a])).operational (hafter ▸ hregisters.operational)
  -- nothing is added to what the start has done
  have hcourse : ((ofSession config twin).run (bs ++ [a] ++ cs)).course id =
      ((ofSession config twin).run (bs ++ [a])).course id := by
    rw [run_append]
    exact (settled_of_answers hanswers (by rw [hregisters.took]; exact List.mem_singleton.mpr rfl)).course_run
      ((Setup.session config twin).tidy_run (bs ++ [a])) cs
  obtain ⟨told, hall, haccepts, htold⟩ := hregisters.course
  have hprefix : told.map toldOf <+: ((ofSession config twin).run (bs ++ [a] ++ cs)).course id := by
    rw [hcourse, ← hafter, htold, List.append_assoc]
    exact List.prefix_append _ _
  refine ⟨d, present_run config twin _ (.inl hw), (launched_run config twin _).portTaken hw, fun ds => ?_, ?_,
    ⟨id, told, hall, haccepts, hprefix⟩, fun i hi => ?_⟩
  · rw [List.append_assoc, descriptor_mono hlaunched]
    exact hdesc
  · obtain ⟨v, w, p, q, -, hserved, -, htype, hparse⟩ := hregisters.described
    refine ⟨w, q, ?_, htype, hparse⟩
    rw [moments_append, List.filterMap_append]
    exact List.mem_append_left _ (hserved.subset (List.mem_cons_of_mem _ (List.mem_singleton.mpr rfl)))
  · have hmem : ∀ call ∈ [TwinCall.publish i.id, .bind i.id], call ∈ d.registration := fun call hc =>
      List.mem_flatMap.mpr ⟨i, hi, hc⟩
    exact ⟨accepted_of_course hall haccepts hprefix (hmem _ List.mem_cons_self),
      accepted_of_course hall haccepts hprefix (hmem _ (List.mem_cons_of_mem _ List.mem_cons_self))⟩

end Host

/-! ## What finding a session operational comes to -/

/-- What is wrong with an operation itself is not that the session is not operational. -/
theorem Operation.plan_ne_notOperational (d : Descriptor) (op : Operation) (phase : Phase) :
    op.plan d ≠ .error (.notOperational phase) := by
  have hmake : ∀ {α : Type} {kind : OperationKind} {name : String} {found : Located α} {data : Except SchemaError Bytes}
      {result : Schema}, Plan.make kind name found data result ≠ .error (.notOperational phase) := by
    intro α kind name found data result he
    unfold Plan.make at he
    split at he
    · cases data with
      | error e => cases he
      | ok bytes => dsimp only at he; split at he <;> cases he
    · cases he
  have hc := op.plan_cases d
  generalize op.plan d = planned at hc
  cases hc with
  | invoke | read | write => exact hmake
  | _ => exact nofun

/-- What becomes of a packet that the dispatcher takes up: there is an entry in the history for it, whatever it is. -/
inductive Moment.Disposes (m : Moment) (p : Packet) : Prop
  | premature (hp : m.host.session.phase ≠ .operational)
      (hn : m.news = [⟨.dispatcher, m.host.now, .logged (.premature p.type m.host.session.phase)⟩])
  | dropped (d : Descriptor) (r : Remark) (hp : m.host.session.phase = .operational)
      (hd : m.host.session.descriptor = some d) (hu : d.understand p = .error r)
      (hn : m.news = [⟨.dispatcher, m.host.now, .logged r⟩])
  | reported (d : Descriptor) (call : TwinCall) (hp : m.host.session.phase = .operational)
      (hd : m.host.session.descriptor = some d) (hu : d.understand p = .ok call)
      (hn : ⟨.dispatcher, m.host.now, .toldTwin call (m.host.session.twin m.host.session.asked call)⟩ ∈ m.news)

/-- **The dispatcher disposes of every packet that it takes up,** if an operational session knows its device. -/
theorem Moment.disposes (hc : h.Claimed) {i : Bool} {p : Packet} (hd : h.session.phase = .operational → h.session.descriptor ≠ none)
    (hh : (Moment.mk h (.advance .dispatcher i)).handled = some p) :
    (Moment.mk h (.advance .dispatcher i)).Disposes p := by
  have hacts := Moment.acts (m := ⟨h, .advance .dispatcher i⟩) hc
  generalize hafter : (Moment.mk h (.advance .dispatcher i)).after = h' at hacts
  cases hacts with
  | idle a hr =>
    rw [handled_none (refused_taken hr)] at hh
    cases hh
  | dispatcher i hm ht =>
    have hnews := Moment.news_eq (m := ⟨h, .advance .dispatcher i⟩) (hafter ▸ ht.history)
    have hattached : h.attached := by
      by_contra ha
      unfold handled at hh
      rw [if_neg ha] at hh
      cases hh
    have hlistens : h.session.dispatch = .listening := by
      by_contra hno
      rw [handled_none (dispatch_taken_none hno)] at hh
      cases hh
    -- the packet is the one that stands first in the queue
    have hfirst : ∀ {event events woken}, h.link.events.take? = some (event, events, woken) → event.packet? = some p :=
      fun he => (dispatch_handled hattached hlistens he).symm.trans hh
    generalize h.session.dispatch = q at hm hlistens
    cases hm with
    | deserted he ha =>
      rw [hattached] at ha
      cases ha
    | premature he hp =>
      cases hfirst he
      exact .premature hp hnews
    | undescribed he hnone hp => exact absurd hnone (hd hp)
    | drops he hp hsome hu =>
      cases hfirst he
      exact .dropped _ _ hp hsome hu hnews
    | reports he hp hsome hu =>
      cases hfirst he
      refine .reported _ _ hp hsome hu ?_
      rw [hnews]
      exact List.mem_cons_self
    | ends he => cases hfirst he
    | reported => cases hlistens

/-! ## Every operational session -/

/-- What holds of a session that is operational after the actions `as`, and of every other. -/
structure Host.ReadyWhenOperational (start : Host) (revision : Revision) (as : List Action) : Prop where
  /-- A session that is operational is ready. -/
  ready : (start.run as).session.phase = .operational → ∃ d, start.Ready revision as d
  /-- Nobody is told that an operational session is not operational. -/
  available : ∀ a id, ¬(Moment.mk (start.run as) a).Answers id (.error (.session (.notOperational .operational)))
  /-- The dispatcher drops no packet without a word, least of all for want of a device. -/
  disposes : ∀ i p, (Moment.mk (start.run as) (.advance .dispatcher i)).handled = some p →
    (Moment.mk (start.run as) (.advance .dispatcher i)).Disposes p

namespace Host

/-- **Operational sessions are ready,** in every run of a session with any device and any twin, whatever is called and
whatever the application does with the link. -/
theorem operational_ready (config : SessionConfig) (twin : Twin) (as : List Action) :
    (ofSession config twin).ReadyWhenOperational config.revision as := by
  have hready : ((ofSession config twin).run as).session.phase = .operational →
      ∃ d, (ofSession config twin).Ready config.revision as d :=
    fun hp => ready_of_wasOperational ((launched_run config twin as).operational hp)
  have hknown : ((ofSession config twin).run as).session.phase = .operational →
      ((ofSession config twin).run as).session.descriptor ≠ none := fun hp hnone => by
    obtain ⟨d, hd⟩ := hready hp
    have hsome := hd.known []
    rw [List.append_nil, hnone] at hsome
    cases hsome
  refine ⟨hready, fun a id hanswers => ?_, fun i p hh => Moment.disposes ((Setup.session config twin).claimed_run _) hknown hh⟩
  obtain ⟨c, m, hmove, rfl, hc, hm, hl, hf⟩ := Moment.answers_move ((Setup.session config twin).claimed_run _) hanswers
  cases hm.sessionFailure hc hf ((Setup.session config twin).candid_run as) with
  | refused op hplan =>
    -- an operation of an operational session is planned by the device
    generalize herr : SessionError.notOperational .operational = e at hplan
    cases declines hplan with
    | faulted => cases herr
    | notOperational hp => exact hp (SessionError.notOperational.inj herr).symm
    | undescribed hp hnone => exact hknown hp hnone
    | unplanned d hp hd hplan => exact op.plan_ne_notOperational d _ (herr ▸ hplan)
  | unreadable ticket limit alarm plan p hpt hd hr => exact absurd (Plan.read_notLocal hr) (by decide)
  | shut hpt => cases failed_of_shutting hc hpt

/-- A session starts with a device that has one property. -/
def startedWithOne : List Action := startedWith [1, 0, 5, 1, 0, 97, 2, 1, 98, 0, 0, 0, 7, 0, 1]

theorem operational_ready_startedWithOne :
    ((ofSession {} (.scripted [] 0 0)).run startedWithOne).session.phase = .operational ∧
      ∃ d, (ofSession {} (.scripted [] 0 0)).Ready .v2 startedWithOne d := by
  have hphase : ((ofSession {} (.scripted [] 0 0)).run startedWithOne).session.phase = .operational := by decide +kernel
  exact ⟨hphase, (operational_ready {} (.scripted [] 0 0) startedWithOne).ready hphase⟩

end Host

end TwinLink
