import TwinLink.Proofs.Link.Edits

/-!
# Who waits to send

A call stands in line for the command queue, or has a place in it that it has not used yet, only while it tries to send.

* `Channel.senders` : those in line and those with a place; `Channel.Lined` : each of them once;
* `Point.enters` : where a call tries to send;
* `Host.Lined` : every sender is a call that tries to send; `Setup.lined_run`.
-/

namespace TwinLink

namespace Channel

variable {α : Type} {c c' : Channel α} {a : Actor}

/-- Those who stand in line, and those who have a place and have not used it. -/
def senders (c : Channel α) : List Actor := c.line ++ c.granted

/-- Every sender waits once, and none at all once the channel is closed. -/
structure Lined (c : Channel α) : Prop where
  distinct : c.senders.Nodup
  closed : c.closed → c.senders = []

theorem grant_senders (c : Channel α) : c.grant.1.senders.Perm c.senders := by
  unfold grant senders
  split
  · exact .refl _
  · rename_i b rest hl
    rw [hl, ← List.append_assoc]
    exact List.perm_append_comm

theorem Lined.congr (hl : c.Lined) (hs : c'.senders.Perm c.senders) (hc : c'.closed = c.closed) : c'.Lined where
  distinct := hs.nodup_iff.mpr hl.distinct
  closed h := List.perm_nil.mp (hl.closed (hc ▸ h) ▸ hs)

/-- The senders without one that has sent or given up. -/
theorem Lined.drop (hl : c.Lined) (hs : c'.senders.Perm (c.senders.erase a)) (hc : c'.closed = c.closed) :
    c'.Lined ∧ ∀ b ∈ c'.senders, b ∈ c.senders ∧ b ≠ a := by
  refine ⟨⟨hs.nodup_iff.mpr (hl.distinct.erase a), fun h => ?_⟩, fun b hb => ?_⟩
  · rw [hl.closed (hc ▸ h)] at hs
    exact List.perm_nil.mp hs
  · exact (hl.distinct.mem_erase_iff.mp (hs.mem_iff.mp hb)).symm

/-- Who is admitted waits no longer. -/
theorem Lined.admitted (hl : c.Lined) {x : α} (ho : c.offer a x = (c', .admitted)) :
    c'.Lined ∧ ∀ b ∈ c'.senders, b ∈ c.senders ∧ b ≠ a := by
  unfold offer at ho
  split_ifs at ho with hc hg hi hr <;> simp at ho <;> subst ho
  · -- a place that was granted
    have hg : a ∈ c.granted := by simpa using hg
    have hline : a ∉ c.line := fun hi => (List.nodup_append.mp hl.distinct).2.2 a hi a hg rfl
    refine hl.drop ?_ rfl
    unfold senders
    rw [List.erase_append_right _ hline]
  · have hi : a ∉ c.line := by simpa using hi
    have hg : a ∉ c.granted := by simpa using hg
    exact ⟨⟨hl.distinct, hl.closed⟩, fun b hb => ⟨hb, fun he => by
      rw [he] at hb
      exact (List.mem_append.mp hb).elim hi hg⟩⟩

/-- Who is queued waits from then on. -/
theorem Lined.queued (hl : c.Lined) {x : α} (ho : c.offer a x = (c', .queued)) :
    c'.Lined ∧ ∀ b ∈ c'.senders, b ∈ c.senders ∨ b = a := by
  unfold offer at ho
  split_ifs at ho with hc hg hi hr <;> simp at ho
  subst ho
  have hi : a ∉ c.line := by simpa using hi
  have hg : a ∉ c.granted := by simpa using hg
  have hp : (c.line ++ [a] ++ c.granted).Perm (a :: (c.line ++ c.granted)) := by
    rw [List.append_assoc, List.singleton_append]
    exact List.perm_middle
  refine ⟨⟨hp.nodup_iff.mpr (List.nodup_cons.mpr ⟨?_, hl.distinct⟩), fun h => absurd h hc⟩, fun b hb => ?_⟩
  · rw [List.mem_append, not_or]
    exact ⟨hi, hg⟩
  · exact (List.mem_cons.mp (hp.mem_iff.mp hb)).symm

/-- Who gives up waits no longer. -/
theorem Lined.withdraw (hl : c.Lined) (a : Actor) :
    (c.withdraw a).1.Lined ∧ ∀ b ∈ (c.withdraw a).1.senders, b ∈ c.senders ∧ b ≠ a := by
  refine hl.drop ?_ (c.withdraw_closed a)
  unfold Channel.withdraw
  split
  · rename_i hg
    have hg : a ∈ c.granted := by simpa using hg
    have hline : a ∉ c.line := fun hi => (List.nodup_append.mp hl.distinct).2.2 a hi a hg rfl
    refine (grant_senders _).trans ?_
    unfold senders
    rw [List.erase_append_right _ hline]
  · rename_i hg
    have hg : a ∉ c.granted := by simpa using hg
    unfold senders
    by_cases hi : a ∈ c.line
    · rw [List.erase_append_left _ hi]
    · rw [List.erase_of_not_mem hi, List.erase_of_not_mem (by simp [hi, hg])]

theorem Lined.take (hl : c.Lined) {x : α} {woken : Option Actor} (ht : c.take? = some (x, c', woken)) :
    c'.Lined ∧ ∀ b ∈ c'.senders, b ∈ c.senders := by
  unfold take? at ht
  split at ht
  · cases ht
  · rename_i y rest hq
    rcases hg : ({ c with queue := rest } : Channel α).grant with ⟨c₁, w⟩
    rw [hg] at ht
    cases ht
    have hp := grant_senders { c with queue := rest }
    have hc := grant_closed { c with queue := rest }
    rw [hg] at hp hc
    exact ⟨hl.congr hp hc, fun b hb => hp.mem_iff.mp hb⟩

end Channel

/-! ## Calls that send -/

/-- The call tries to send a command. -/
def Point.enters : Point → Bool
  | entering .. => true
  | shutting _ => true
  | _ => false

variable {h h' : Host} {c : Call} {q : Point} {m : Move} {a : Action}

/-- What a move does to the command queue: nothing, if the call does not try to send or the queue is closed; or the call
sends, or stands in line from then on. -/
inductive SendsCommand (h : Host) (c : Call) (q : Point) (m : Move) : Prop
  | quiet (hm : m.link.commands = h.link.commands) (hq : q.enters → h.link.commands.closed)
  | sent (x : LinkCommand) (ho : h.link.commands.offer (.call c.id) x = (m.link.commands, .admitted))
  | queued (x : LinkCommand) (ho : h.link.commands.offer (.call c.id) x = (m.link.commands, .queued))
      (hq : q.enters) (hf : m.fate = .stays)

theorem Fails.commands {l : Link} {notes : List Happening} {purpose : Purpose} {e : LinkError}
    (hf : Fails h l notes purpose e m) (hl : l.commands = h.link.commands) : m.link.commands = h.link.commands := by
  cases hf <;> exact hl

theorem Attempts.commands {l : Link} {s : Session} {notes : List Happening} {stage : Stage} {retries : Nat}
    (ha : Attempts l s notes stage retries m) (hl : l.commands = h.link.commands) :
    m.link.commands = h.link.commands := by
  cases ha <;> exact hl

theorem commands_withdraw? (l : Link) (ticket : Option Ticket) :
    (ticket.elim l fun t => l.withdraw t.id).commands = l.commands := by
  cases ticket <;> rfl

theorem CallMove.sendsCommand (hm : CallMove h c q m) : SendsCommand h c q m := by
  cases hm with
  | begin hm =>
    cases hm with
    | start hp ht ha => exact .quiet (ha.commands rfl) nofun
    | _ => exact .quiet rfl nofun
  | entered frame ticket limit purpose ho => exact .sent _ ho
  | queued frame ticket limit purpose ho => exact .queued _ ho rfl rfl
  | shutOut frame ticket limit purpose hc hf => exact .quiet (hf.commands (commands_withdraw? _ _)) fun _ => hc
  | unwritten ticket limit purpose e hr hf => exact .quiet (hf.commands (commands_withdraw? _ _)) nofun
  | failed ticket limit alarm purpose e hd hf => exact .quiet (hf.commands rfl) nofun
  | timedOut ticket limit alarm purpose hd ha hf => exact .quiet (hf.commands rfl) nofun
  | acknowledged ticket limit alarm retries p hd ha => exact .quiet (ha.commands rfl) nofun
  | paused alarm stage retries ha hm => exact .quiet (hm.commands rfl) nofun
  | told answer ho => exact .sent _ ho
  | untold answer hc => exact .quiet rfl fun _ => hc
  | telling answer ho => exact .queued _ ho rfl rfl
  | _ => exact .quiet rfl nofun

/-- The command queue is in order, and its senders are calls that try to send. -/
structure Host.Lined (h : Host) : Prop where
  lined : h.link.commands.Lined
  callers : ∀ b ∈ h.link.commands.senders, ∃ c ∈ h.calls, b = .call c.id ∧ c.point.enters

namespace Host.Lined

/-- Some of the senders are left, and all of these are still calls that try to send. -/
theorem subset (hl : h.Lined) (hc : h'.link.commands.Lined)
    (hs : ∀ b ∈ h'.link.commands.senders, b ∈ h.link.commands.senders)
    (hcalls : ∀ c ∈ h.calls, .call c.id ∈ h'.link.commands.senders → c.point.enters → c ∈ h'.calls) : h'.Lined :=
  ⟨hc, fun b hb => by
    obtain ⟨c, hmem, rfl, hq⟩ := hl.callers b (hs b hb)
    exact ⟨c, hcalls c hmem hb hq, rfl, hq⟩⟩

/-- A call that does not try to send is no sender. -/
theorem notMem (hl : h.Lined) (hn : h.Numbered) (hc : c ∈ h.calls) (hq : c.point.enters = false) :
    .call c.id ∉ h.link.commands.senders := fun hs => by
  obtain ⟨c', hc', he, hq'⟩ := hl.callers _ hs
  obtain rfl := hn.eq_of_id hc hc' (Actor.call.inj he)
  rw [hq] at hq'
  cases hq'

theorem commands_vacate (l : Link) (c : Call) : (l.vacate c).commands = (l.commands.withdraw (.call c.id)).1 := by
  unfold Link.vacate
  cases c.point.ticket? <;> rfl

/-- The senders that a move leaves, before its call gives up what it holds. -/
theorem senders (hl : h.Lined) (hn : h.Numbered) (hc : c ∈ h.calls) (hm : CallMove h c c.point m) :
    m.link.commands.Lined ∧ (∀ b ∈ m.link.commands.senders, b ∈ h.link.commands.senders ∨ b = .call c.id) ∧
      (.call c.id ∈ m.link.commands.senders → c.point.enters ∧ m.fate = .stays) := by
  cases hm.sendsCommand with
  | quiet hsame hq =>
    rw [hsame]
    refine ⟨hl.lined, fun b hb => .inl hb, fun hs => ?_⟩
    by_cases hqe : c.point.enters
    · rw [hl.lined.closed (hq hqe)] at hs
      cases hs
    · exact absurd hs (hl.notMem hn hc (by simpa using hqe))
  | sent x ho =>
    obtain ⟨hlined, hs⟩ := hl.lined.admitted ho
    exact ⟨hlined, fun b hb => .inl (hs b hb).1, fun hb => absurd rfl (hs _ hb).2⟩
  | queued x ho hq hf =>
    obtain ⟨hlined, hs⟩ := hl.lined.queued ho
    exact ⟨hlined, hs, fun _ => ⟨hq, hf⟩⟩

theorem call (hl : h.Lined) (hn : h.Numbered) (hc : c ∈ h.calls) (hm : CallMove h c c.point m)
    (hle : h.Leaves c m h') : h'.Lined := by
  obtain ⟨hlined, hsenders, hown⟩ := hl.senders hn hc hm
  -- another call is still there
  have hother : ∀ b ∈ m.link.commands.senders, b ≠ .call c.id →
      ∃ x ∈ h'.calls, b = .call x.id ∧ x.point.enters := fun b hb hne => by
    obtain ⟨x, hx, rfl, hq⟩ := hl.callers b ((hsenders b hb).resolve_right hne)
    refine ⟨x, ?_, rfl, hq⟩
    rw [hle.calls]
    exact Move.mem_callsAfter_of_ne hx fun he => hne (by rw [he])
  cases hf : m.fate with
  | ends answer =>
    have hlink : h'.link.commands = (m.link.commands.withdraw (.call c.id)).1 := by
      rw [hle.link, Move.linkAfter, hf]
      exact commands_vacate _ _
    obtain ⟨hw, hs⟩ := hlined.withdraw (.call c.id)
    rw [← hlink] at hw hs
    exact ⟨hw, fun b hb => hother b (hs b hb).1 (hs b hb).2⟩
  | goes p keeps =>
    have hlink : h'.link.commands = m.link.commands := by rw [hle.link, Move.linkAfter, hf]
    rw [← hlink] at hlined hother hown
    refine ⟨hlined, fun b hb => hother b hb ?_⟩
    rintro rfl
    rw [(hown hb).2] at hf
    cases hf
  | stays =>
    have hlink : h'.link.commands = m.link.commands := by rw [hle.link, Move.linkAfter, hf]
    rw [← hlink] at hlined hother hown
    refine ⟨hlined, fun b hb => ?_⟩
    by_cases hb' : b = .call c.id
    · subst hb'
      refine ⟨c, ?_, rfl, (hown hb).1⟩
      rw [hle.calls, Move.callsAfter, hf]
      exact hc
    · exact hother b hb hb'

theorem stopped (l : Link) (reason : String) (refused : List (Nat × Except LinkError Unit)) :
    (l.stopped reason refused).commands.Lined ∧ (l.stopped reason refused).commands.senders = [] :=
  ⟨⟨List.nodup_nil, fun _ => rfl⟩, rfl⟩

theorem loop (hl : h.Lined) {t : LoopTurn} (hm : LoopMove h h.link.loop t) (ht : h.LoopTurns t h') : h'.Lined := by
  obtain ⟨hlined, hs⟩ : t.link.commands.Lined ∧
      ∀ b ∈ t.link.commands.senders, b ∈ h.link.commands.senders := by
    generalize h.link.loop = q at hm
    cases hm with
    | readFailed | hungUp | told | deserted | misframed | writeFailed =>
      exact ⟨(stopped _ _ _).1, fun b hb => by cases hb⟩
    | obeys hc => exact hl.lined.take hc
    | _ => exact ⟨hl.lined, fun _ => id⟩
  rw [← ht.link] at hlined hs
  exact hl.subset hlined hs fun c hc _ _ => by rw [ht.calls]; exact hc

/-- **Every action leaves as senders only calls that try to send.** -/
theorem acts (hl : h.Lined) (hn : h.Numbered) (ha : Acts h a h') : h'.Lined := by
  cases ha with
  | loop i hm ht => exact hl.loop hm ht
  | dispatcher i hm ht =>
    obtain ⟨events, he⟩ := hm.link
    have hlink : h'.link.commands = h.link.commands := by rw [ht.link, he]
    exact hl.subset (hlink ▸ hl.lined) (by rw [hlink]; exact fun _ => id) fun c hc _ _ => by rw [ht.calls]; exact hc
  | call i hc hm hle => exact hl.call hn (call?_mem hc) hm hle
  | make r hm ready => exact hl.subset hl.lined (fun _ => id) fun c hc _ _ => List.mem_append_left _ hc
  | @abandon id c hc released hr ready =>
    obtain ⟨hw, hs⟩ := hl.lined.withdraw (.call c.id)
    have hlink := commands_vacate h.link c
    refine hl.subset (by rw [hlink]; exact hw) (by rw [hlink]; exact fun b hb => (hs b hb).1) fun x hx hb _ => ?_
    rw [hlink] at hb
    refine List.mem_filter.mpr ⟨hx, ?_⟩
    have hne : x.id ≠ c.id := fun he => (hs _ hb).2 (by rw [he])
    simpa using hne
  | _ => exact hl.subset hl.lined (fun _ => id) fun c hc _ _ => hc

end Host.Lined

theorem Setup.lined_run (setup : Setup) (as : List Action) : (setup.host.run as).Lined := by
  have h0 : setup.host.Numbered ∧ setup.host.Lined := by
    cases setup <;> exact ⟨⟨.nil, List.forall_mem_nil _⟩, ⟨List.nodup_nil, nofun⟩, List.forall_mem_nil _⟩
  exact (setup.tidy.run_inv (P := fun h => h.Numbered ∧ h.Lined) h0
    (fun _ _ _ ha ⟨hn, hl⟩ => ⟨hn.acts ha, hl.acts hn ha⟩) as).2

end TwinLink
