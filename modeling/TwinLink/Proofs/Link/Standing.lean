import TwinLink.Proofs.Link.Edits

/-!
# Where a registration stands

A registration waits in the table until its packet or the end of the link is delivered to it. Only its holder can
withdraw it, and what others do to the link leaves it where it stands, or ends it with the table.

* `Link.Sound` : numbers that were not given out are free, and a closed table is empty;
* `Link.Stands l t s` : the registration `t` waits, or is answered, or is lost;
* `Link.Stands.edits` : edits by another call;
* `Link.Reach` : what the edits by a call can add to the link.
-/

namespace TwinLink

namespace Link

variable {l l' : Link} {t : Nat}

/-- The entries of the table under a number. -/
def openFor (l : Link) (t : Nat) : List Waiter := l.table.entries.filter (·.id == t)

/-- What was delivered under a number, oldest first. -/
def heldFor (l : Link) (t : Nat) : List (Except LinkError Packet) := (l.deliveries.filter (·.1 == t)).map (·.2)

theorem delivery?_eq (l : Link) (t : Nat) : l.delivery? t = (l.heldFor t).head? := by
  unfold delivery? heldFor
  induction l.deliveries with
  | nil => rfl
  | cons d ds ih =>
    obtain ⟨id, result⟩ := d
    by_cases h : id = t
    · subst h
      simp
    · rw [List.lookup_cons, beq_false_of_ne (Ne.symm h), List.filter_cons, beq_false_of_ne h]
      exact ih

/-! ## Links in order -/

/-- Numbers that were not given out are free, a closed table is empty, and no command is taken once it is closed for
good. -/
structure Sound (l : Link) : Prop where
  table : l.table.Ordered
  deliveries : ∀ d ∈ l.deliveries, d.1 < l.table.nextId
  closed : l.table.closed.isSome → l.table.entries = []
  ended : l.commands.closed → l.table.closed.isSome

namespace Sound

theorem shut (hl : l.Sound) (reason : String) : (l.shut reason).Sound where
  table := hl.table.edit (.shut reason)
  deliveries := by
    intro d hd
    rcases List.mem_append.mp hd with hd | hd
    · exact hl.deliveries d hd
    · obtain ⟨w, hw, rfl⟩ := List.mem_map.mp hd
      exact hl.table.lt w hw
  closed := fun _ => rfl
  ended := fun _ => rfl

theorem edit (hl : l.Sound) {e : Edit} (ha : e.Allowed l) : (e.makes l).Sound := by
  have ht := hl.table.edit e
  cases e with
  | enroll type matcher =>
    have ho : l.table.closed = none := ha
    refine ⟨ht, fun d hd => Nat.lt_succ_of_lt (hl.deliveries d hd), fun hc => ?_, hl.ended⟩
    have hc : l.table.closed.isSome := hc
    rw [ho] at hc
    cases hc
  | withdraw id =>
    refine ⟨ht, fun d hd => hl.deliveries d (List.mem_filter.mp hd).1, fun hc => ?_, hl.ended⟩
    show l.table.entries.filter _ = []
    rw [hl.closed hc]
    rfl
  | shut reason => exact hl.shut reason
  | send caller x =>
    refine ⟨ht, hl.deliveries, hl.closed, fun hc => hl.ended ?_⟩
    have hc : (l.commands.offer (.call caller) x).1.closed := hc
    unfold Channel.offer at hc
    split_ifs at hc <;> assumption
  | leave caller => exact ⟨ht, hl.deliveries, hl.closed, fun hc => hl.ended (by simpa [Edit.makes] using hc)⟩
  | _ => exact ⟨ht, hl.deliveries, hl.closed, hl.ended⟩

theorem edits {ok : Edit → Prop} (hl : l.Sound) (he : Edits ok l l') : l'.Sound := by
  induction he with
  | refl => exact hl
  | tail _ e hok ha ih => exact ih.edit ha

theorem stopped (hl : l.Sound) (reason : String) (refused : List (Nat × Except LinkError Unit)) :
    (l.stopped reason refused).Sound := ⟨(hl.shut reason).table, (hl.shut reason).deliveries, fun _ => rfl, fun _ => rfl⟩

theorem loop {h : Host} {q : LoopPoint} {turn : LoopTurn} (hl : h.link.Sound) (hm : LoopMove h q turn) :
    turn.link.Sound := by
  -- where a command is taken, the queue is shorter and nothing else differs
  have htake : ∀ {command commands woken}, h.link.commands.take? = some (command, commands, woken) →
      (∀ loop, Sound { h.link with commands := commands, loop := loop }) ∧ Sound { h.link with commands := commands } :=
    fun hc => by
      have he := (Channel.take_eq_some hc).2
      exact ⟨fun _ => ⟨hl.table, hl.deliveries, hl.closed, by rw [he]; exact hl.ended⟩,
        hl.table, hl.deliveries, hl.closed, by rw [he]; exact hl.ended⟩
  cases hm with
  | readFailed | hungUp => exact hl.stopped _ _
  | obeys hc => exact (htake hc).1 _
  | told hc => exact (htake hc).2.stopped _ _
  | deserted | misframed => exact hl.stopped _ _
  | writeFailed caller rest text hf =>
    have hr : Sound { h.link with receipts := h.link.receipts ++ Host.receiptFor h.calls caller (.error (.io text)) } :=
      ⟨hl.table, hl.deliveries, hl.closed, hl.ended⟩
    exact hr.stopped _ _
  | @matched frame rest fault p hp w table hm =>
    obtain ⟨hw, -, -, rfl⟩ := hl.table.takeMatch hm
    refine ⟨hl.table.of_sublist List.erase_sublist rfl, fun d hd => ?_, fun hc => ?_, hl.ended⟩
    · rcases List.mem_append.mp hd with hd | hd
      · exact hl.deliveries d hd
      · obtain rfl := List.mem_singleton.mp hd
        exact hl.table.lt w hw
    · rw [hl.closed hc] at hw
      cases hw
  | _ => exact ⟨hl.table, hl.deliveries, hl.closed, hl.ended⟩

theorem acts {h h' : Host} {a : Action} (ha : Acts h a h') (hu : h.Unstarted) (hl : h.link.Sound) : h'.link.Sound := by
  rcases ha.link hu with ⟨i, turn, rfl, hm, ht⟩ | ⟨events, he⟩ | ⟨ok, he⟩
  · rw [ht.link]
    exact hl.loop hm
  · rw [he]
    exact ⟨hl.table, hl.deliveries, hl.closed, hl.ended⟩
  · exact hl.edits he

end Sound

/-! ## Standings -/

/-- Where a registration can stand. -/
inductive Standing
  | waits (w : Waiter)
  | answered (p : Packet)
  | lost

/-- Where the registration `t` stands: in the table, or with its packet, or ended with the table. -/
inductive Stands (l : Link) (t : Nat) : Standing → Prop
  | waits (w : Waiter) (ho : l.openFor t = [w]) (hh : l.heldFor t = []) : Stands l t (.waits w)
  | answered (p : Packet) (ho : l.openFor t = []) (hh : l.heldFor t = [.ok p]) : Stands l t (.answered p)
  | lost (e : LinkError) (hc : l.table.closed.isSome) (ho : l.openFor t = []) (hh : l.heldFor t = [.error e]) :
      Stands l t .lost

namespace Stands

variable {s : Standing}

/-- Only the table and the deliveries matter. -/
theorem congr (hs : l.Stands t s) (ht : l'.table = l.table) (hd : l'.deliveries = l.deliveries) : l'.Stands t s := by
  have ho : l'.openFor t = l.openFor t := by rw [openFor, ht, openFor]
  have hh : l'.heldFor t = l.heldFor t := by rw [heldFor, hd, heldFor]
  cases hs with
  | waits w ho' hh' => exact .waits w (ho.trans ho') (hh.trans hh')
  | answered p ho' hh' => exact .answered p (ho.trans ho') (hh.trans hh')
  | lost e hc ho' hh' => exact .lost e (by rw [ht]; exact hc) (ho.trans ho') (hh.trans hh')

/-- A registration that waits is in the table. -/
theorem mem_entries {w : Waiter} (hs : l.Stands t (.waits w)) : w ∈ l.table.entries ∧ w.id = t := by
  cases hs with
  | waits w ho hh =>
    have := List.mem_filter.mp (ho ▸ List.mem_singleton.mpr rfl : w ∈ l.openFor t)
    exact ⟨this.1, by simpa using this.2⟩

/-- An entry of the table waits under its number. -/
theorem eq_of_mem {w : Waiter} (hs : l.Stands w.id s) (hw : w ∈ l.table.entries) : s = .waits w := by
  have hw : w ∈ l.openFor w.id := List.mem_filter.mpr ⟨hw, by simp⟩
  cases hs with
  | waits w' ho hh =>
    rw [ho, List.mem_singleton] at hw
    rw [hw]
  | answered p ho hh => rw [ho] at hw; cases hw
  | lost e hc ho hh => rw [ho] at hw; cases hw

theorem delivery? (hs : l.Stands t s) {p : Packet} (hd : l.delivery? t = some (.ok p)) : s = .answered p := by
  rw [delivery?_eq] at hd
  cases hs with
  | waits w ho hh => rw [hh] at hd; cases hd
  | answered p' ho hh => rw [hh] at hd; cases hd; rfl
  | lost e hc ho hh => rw [hh] at hd; cases hd

theorem delivery?_error (hs : l.Stands t s) {e : LinkError} (hd : l.delivery? t = some (.error e)) : s = .lost := by
  rw [delivery?_eq] at hd
  cases hs with
  | waits w ho hh => rw [hh] at hd; cases hd
  | answered p' ho hh => rw [hh] at hd; cases hd
  | lost e hc ho hh => rfl

/-- The newest registration waits. -/
theorem enroll (hl : l.Sound) (type : UInt8) (matcher : Matcher) :
    (l.enroll type matcher).Stands l.table.nextId (.waits ⟨l.table.nextId, type, matcher⟩) := by
  refine .waits _ ?_ ?_
  · show (l.table.entries ++ [_]).filter _ = [_]
    rw [List.filter_append, List.filter_eq_nil_iff.mpr fun w hw => ?_]
    · simp
    · have := hl.table.lt w hw
      simp
      omega
  · show (l.deliveries.filter _).map _ = []
    rw [List.filter_eq_nil_iff.mpr fun d hd => ?_]
    · rfl
    · have := hl.deliveries d hd
      simp
      omega

/-- The end of the table ends what waits. -/
theorem shut (hs : l.Stands t s) (reason : String) :
    (l.shut reason).Stands t s ∨ (∃ w, s = .waits w) ∧ (l.shut reason).Stands t .lost := by
  have hh : (l.shut reason).heldFor t = l.heldFor t ++ (l.openFor t).map fun _ => .error (.closed reason) := by
    show ((l.deliveries ++ l.table.entries.map _).filter _).map _ = _
    rw [List.filter_append, List.map_append, List.filter_map, List.map_map]
    rfl
  cases hs with
  | waits w ho hh' =>
    rw [hh', ho] at hh
    exact .inr ⟨⟨w, rfl⟩, .lost _ rfl rfl hh⟩
  | answered p ho hh' =>
    rw [hh', ho] at hh
    exact .inl (.answered p rfl hh)
  | lost e hc ho hh' =>
    rw [hh', ho] at hh
    exact .inl (.lost e rfl rfl hh)

/-- An edit that is not by its holder leaves a registration where it stands, or ends it with the table. -/
theorem edit {id : Nat} {q : Point} (hs : l.Stands t s) (hq : q.ticket?.map (·.id) ≠ some t) (ht : t < l.table.nextId)
    {e : Edit} (he : e.By id q) : (e.makes l).Stands t s ∨ (∃ w, s = .waits w) ∧ (e.makes l).Stands t .lost := by
  -- the entries and deliveries under the number stay the same, and so does the end of the table
  have hkeep : ∀ {l' : Link}, l'.table.closed = l.table.closed → l'.openFor t = l.openFor t →
      l'.heldFor t = l.heldFor t → l'.Stands t s := by
    intro l' hc ho hh
    cases hs with
    | waits w ho' hh' => exact .waits w (ho.trans ho') (hh.trans hh')
    | answered p ho' hh' => exact .answered p (ho.trans ho') (hh.trans hh')
    | lost e hc' ho' hh' => exact .lost e (hc ▸ hc') (ho.trans ho') (hh.trans hh')
  cases e with
  | enroll type matcher =>
    refine .inl (hkeep rfl ?_ rfl)
    show (l.table.entries ++ [_]).filter _ = _
    rw [List.filter_append, openFor]
    simp
    omega
  | withdraw id =>
    have hne : t ≠ id := fun hid => hq (by rw [hid]; exact he)
    refine .inl (hkeep rfl ?_ ?_)
    · show (l.table.entries.filter _).filter _ = _
      rw [List.filter_filter, openFor]
      refine List.filter_congr fun w _ => ?_
      by_cases hw : w.id = t <;> simp [hw, hne]
    · show ((l.deliveries.filter _).filter _).map _ = _
      rw [List.filter_filter, heldFor]
      congr 1
      refine List.filter_congr fun d _ => ?_
      by_cases hd : d.1 = t <;> simp [hd, hne]
  | shut reason => exact hs.shut reason
  | _ => exact .inl (hkeep rfl rfl rfl)

theorem edits {id : Nat} {q : Point} (hs : l.Stands t s) (hq : q.ticket?.map (·.id) ≠ some t)
    (ht : t < l.table.nextId) (he : EditsBy id q l l') :
    l.table.nextId ≤ l'.table.nextId ∧ (l'.Stands t s ∨ (∃ w, s = .waits w) ∧ l'.Stands t .lost) := by
  induction he with
  | refl => exact ⟨Nat.le_refl _, .inl hs⟩
  | @tail l₁ _ e hok ha ih =>
    obtain ⟨hle, ih⟩ := ih
    have hlt := Nat.lt_of_lt_of_le ht hle
    have hle' : l₁.table.nextId ≤ (e.makes l₁).table.nextId := by
      cases e with
      | enroll type matcher => exact Nat.le_succ _
      | _ => exact Nat.le_refl _
    refine ⟨Nat.le_trans hle hle', ?_⟩
    rcases ih with ih | ⟨hw, ih⟩
    · exact ih.edit hq hlt hok
    · rcases ih.edit hq hlt hok with ih | ⟨⟨w, hw'⟩, -⟩
      · exact .inr ⟨hw, ih⟩
      · cases hw'

/-- A packet is delivered to the registration that waits for it. -/
theorem deliver {w : Waiter} {p : Packet} (hs : l.Stands w.id (.waits w))
    (he : l'.table.entries = l.table.entries.erase w) (hd : l'.deliveries = l.deliveries ++ [(w.id, .ok p)]) :
    l'.Stands w.id (.answered p) := by
  cases hs with
  | waits w ho hh =>
    refine .answered p ?_ ?_
    · rw [openFor, he, ← List.erase_filter]
      show (l.openFor w.id).erase w = []
      rw [ho]
      simp
    · rw [heldFor, hd, List.filter_append, List.map_append]
      show l.heldFor w.id ++ _ = _
      rw [hh]
      simp

/-- The other registrations stay where they stand. -/
theorem deliver_of_ne {w : Waiter} {p : Packet} (hs : l.Stands t s) (hne : w.id ≠ t)
    (hc : l'.table.closed = l.table.closed) (he : l'.table.entries = l.table.entries.erase w)
    (hd : l'.deliveries = l.deliveries ++ [(w.id, .ok p)]) : l'.Stands t s := by
  have ho : l'.openFor t = l.openFor t := by
    rw [openFor, he, ← List.erase_filter]
    exact List.erase_of_not_mem fun hw => hne (by simpa using (List.mem_filter.mp hw).2)
  have hh : l'.heldFor t = l.heldFor t := by
    rw [heldFor, hd, List.filter_append, List.map_append, heldFor]
    simp [hne]
  cases hs with
  | waits w ho' hh' => exact .waits w (ho.trans ho') (hh.trans hh')
  | answered p ho' hh' => exact .answered p (ho.trans ho') (hh.trans hh')
  | lost e hc' ho' hh' => exact .lost e (hc ▸ hc') (ho.trans ho') (hh.trans hh')

end Stands

/-! ## What a call can add -/

/-- What the edits of the call `id` at the point `q` can add to the link. -/
structure Reach (id : Nat) (q : Point) (l l' : Link) : Prop where
  nextId : l.table.nextId ≤ l'.table.nextId
  closed : l.table.closed.isSome → l'.table.closed.isSome
  entries : ∀ w ∈ l'.table.entries, w ∈ l.table.entries ∨ q.Asks w.type
  commandsClosed : l'.commands.closed = l.commands.closed
  queue : ∃ xs, l'.commands.queue = l.commands.queue ++ xs ∧ ∀ x ∈ xs, l.commands.closed = false ∧ q.Sends id x
  receipts : ∀ r ∈ l'.receipts, r ∈ l.receipts

theorem Reach.edit {id : Nat} {q : Point} (hr : Reach id q l l') {e : Edit} (he : e.By id q) :
    Reach id q l (e.makes l') := by
  cases e with
  | enroll type matcher =>
    refine ⟨Nat.le_succ_of_le hr.nextId, hr.closed, fun w hw => ?_, hr.commandsClosed, hr.queue, hr.receipts⟩
    rcases WaitTable.mem_enroll.mp hw with hw | rfl
    · exact hr.entries w hw
    · exact .inr he
  | withdraw t =>
    exact ⟨hr.nextId, hr.closed, fun w hw => hr.entries w (List.mem_filter.mp hw).1, hr.commandsClosed, hr.queue,
      hr.receipts⟩
  | shut reason => exact ⟨hr.nextId, fun _ => rfl, nofun, hr.commandsClosed, hr.queue, hr.receipts⟩
  | send caller x =>
    obtain ⟨rfl, hx⟩ := he
    have hcl : (l'.commands.offer (.call caller) x).1.closed = l'.commands.closed := by
      unfold Channel.offer
      split_ifs <;> rfl
    refine ⟨hr.nextId, hr.closed, hr.entries, hcl.trans hr.commandsClosed, ?_, hr.receipts⟩
    obtain ⟨xs, hxs, hsends⟩ := hr.queue
    show ∃ ys, (l'.commands.offer (.call caller) x).1.queue = _ ∧ _
    cases ho : l'.commands.offer (.call caller) x with | mk commands admission
    cases admission with
    | admitted =>
      obtain ⟨hq, hc, -⟩ := Channel.offer_admitted _ ho
      refine ⟨xs ++ [x], by rw [hq, hxs, List.append_assoc], fun y hy => ?_⟩
      rcases List.mem_append.mp hy with hy | hy
      · exact hsends y hy
      · obtain rfl := List.mem_singleton.mp hy
        exact ⟨hr.commandsClosed ▸ hc, hx⟩
    | queued => exact ⟨xs, (Channel.offer_queued _ ho).1.trans hxs, hsends⟩
    | refused => exact ⟨xs, by rw [(Channel.offer_refused _ ho).2]; exact hxs, hsends⟩
    | waiting =>
      have : commands = l'.commands := by
        unfold Channel.offer at ho
        split_ifs at ho <;> cases ho
        rfl
      exact ⟨xs, by rw [this]; exact hxs, hsends⟩
  | leave caller =>
    exact ⟨hr.nextId, hr.closed, hr.entries, by simpa [Edit.makes] using hr.commandsClosed,
      by simpa [Edit.makes] using hr.queue, hr.receipts⟩
  | dropReceipt caller =>
    exact ⟨hr.nextId, hr.closed, hr.entries, hr.commandsClosed, hr.queue,
      fun r h => hr.receipts r (List.mem_filter.mp h).1⟩
  | _ => exact ⟨hr.nextId, hr.closed, hr.entries, hr.commandsClosed, hr.queue, hr.receipts⟩

theorem EditsBy.reach {id : Nat} {q : Point} (he : EditsBy id q l l') : Reach id q l l' := by
  induction he with
  | refl => exact ⟨Nat.le_refl _, fun hc => hc, fun w hw => .inl hw, rfl, ⟨[], by simp, nofun⟩, fun r h => h⟩
  | tail _ e hok ha ih => exact ih.edit hok

end Link
end TwinLink
