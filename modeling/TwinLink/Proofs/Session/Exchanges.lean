import TwinLink.Proofs.Session.Launch
import TwinLink.Proofs.Session.Registrations

/-!
# What exchanges wait for

An exchange of the session, of the handshake or of an operation, has the registration that its purpose calls for from the
moment it begins until its call ends or goes on to something else.

* `Point.purpose?` : what a call exchanges packets for; `Purpose.waiter?` : the registration that this calls for;
* `Host.Registered` : every exchange of the session has its registration; `Host.registered_run`;
* `Host.Registered.delivered` : what is delivered to an exchange is what it waits for;
* `Moment.Answers` : a call is answered; `Moment.answers_move`.
-/

namespace TwinLink

variable {h h' : Host} {c : Call} {q p : Point} {m : Move} {a : Action} {keeps : Bool}

/-! ## Answers -/

/-- The call `id` is answered at this moment. -/
def Moment.Answers (m : Moment) (id : Nat) (answer : Answer) : Prop :=
  ∃ n ∈ m.news, n.actor = .call id ∧ n.what = .answered answer

/-- The last move of a call brings its answer, and nothing else does. -/
theorem Moment.answers_move {m : Moment} (hcl : m.host.Claimed) {id : Nat} {answer : Answer} (ha : m.Answers id answer) :
    ∃ c move, m.mover = some c ∧ c.id = id ∧ c ∈ m.host.calls ∧ CallMove m.host c c.point move ∧
      m.host.Leaves c move m.after ∧ move.fate = .ends answer := by
  obtain ⟨h, a⟩ := m
  obtain ⟨n, hn, hactor, hwhat⟩ := ha
  have hnews : ∀ {notes : List Note}, (Moment.mk h a).after.history = notes ++ h.history → n ∈ notes :=
    fun he => by rwa [news_eq he] at hn
  have hacts := Moment.acts (m := ⟨h, a⟩) hcl
  generalize hafter : (Moment.mk h a).after = h' at hacts hnews
  have hno : h'.history ≠ h.history := fun he => by cases @hnews [] he
  cases hacts with
  | loop i hm ht =>
    obtain ⟨what, hx, rfl⟩ := List.mem_map.mp (hnews ht.history)
    cases hactor
  | dispatcher i hm ht =>
    obtain ⟨what, hx, rfl⟩ := List.mem_map.mp (hnews ht.history)
    cases hactor
  | @call _ i c move _ hc hm hl =>
    obtain ⟨what, hx, rfl⟩ := List.mem_map.mp (hnews hl.history)
    cases hactor
    obtain rfl : what = .answered answer := hwhat
    refine ⟨c, move, hc, rfl, Host.call?_mem hc, hm, hafter ▸ hl, ?_⟩
    unfold Move.happenings at hx
    split at hx
    · rename_i answer' hf
      rcases List.mem_cons.mp hx with he | hx
      · cases he
        exact hf
      · exact absurd hx (hm.unanswered _)
    · exact absurd hx (hm.unanswered _)
  | _ => exact absurd rfl hno

/-- A start that makes a request, or finds that it cannot, does not end with that. -/
theorem Attempts.not_ends {l : Link} {s : Session} {notes : List Happening} {stage : Stage} {retries : Nat}
    (ha : Attempts l s notes stage retries m) {answer : Answer} : m.fate ≠ .ends answer := by
  cases ha <;> exact Fate.noConfusion

/-! ## Registrations of exchanges -/

/-- What a call at this point exchanges packets for. -/
def Point.purpose? : Point → Option Purpose
  | .entering _ _ _ purpose => some purpose
  | .writing _ _ purpose => some purpose
  | .awaiting _ _ _ purpose => some purpose
  | _ => none

/-- The registration under the number `t` that an exchange of the session has. -/
def Purpose.waiter? (t : Nat) : Purpose → Option Waiter
  | .direct => none
  | .handshake stage _ => some ⟨t, stage.response.code, .any⟩
  | .operation plan => some (plan.waiter t)

theorem Attempts.purpose {l : Link} {s : Session} {notes : List Happening} {stage : Stage} {retries : Nat}
    (ha : Attempts l s notes stage retries m) (hg : m.fate = .goes p keeps) {purpose : Purpose}
    (hp : p.purpose? = some purpose) : purpose = .handshake stage retries ∧ ∃ w ∈ m.link.table.entries,
      w.id = l.table.nextId ∧ p.ticket? = some w.ticket ∧ purpose.waiter? w.id = some w := by
  cases ha with
  | opened ho =>
    cases hg
    cases hp
    exact ⟨rfl, _, List.mem_append_right _ (List.mem_singleton.mpr rfl), rfl, rfl, rfl⟩
  | closed =>
    cases hg
    cases hp

theorem Fails.purpose {l : Link} {notes : List Happening} {purpose : Purpose} {e : LinkError}
    (hf : Fails h l notes purpose e m) (hg : m.fate = .goes p keeps) : p.purpose? = none := by
  cases hf with
  | direct | operation => cases hg
  | retry | fault => cases hg; rfl

/-- A call goes on with its exchange and its registration, or has just registered for a new exchange. -/
theorem CallMove.purpose (hm : CallMove h c q m) (hg : m.fate = .goes p keeps) {purpose : Purpose}
    (hp : p.purpose? = some purpose) (hd : purpose ≠ .direct) :
    q.purpose? = some purpose ∧ p.ticket? = q.ticket? ∨ ∃ w ∈ m.link.table.entries,
      w.id = h.link.table.nextId ∧ p.ticket? = some w.ticket ∧ purpose.waiter? w.id = some w := by
  have hfails : ∀ {l : Link} {notes : List Happening} {purpose : Purpose} {e : LinkError},
      ¬Fails h l notes purpose e m := fun hf => by rw [hf.purpose hg] at hp; cases hp
  cases hm with
  | begin hm =>
    cases hm with
    | start hp' ht ha => exact .inr (ha.purpose hg hp).2
    | send | exchange | receive | await => cases hg; cases hp; exact absurd rfl hd
    | operate | twinOperate | shutDown | close => cases hg; cases hp
    | _ => cases hg
  | locked plan =>
    cases hg
    cases hp
    exact .inr ⟨_, List.mem_append_right _ (List.mem_singleton.mpr rfl), rfl, rfl, rfl⟩
  | entered | written => cases hg; exact .inl ⟨hp, rfl⟩
  | shutOut frame ticket limit purpose hc hf => exact (hfails hf).elim
  | unwritten ticket limit purpose e hr hf => exact (hfails hf).elim
  | failed ticket limit alarm purpose e hd hf => exact (hfails hf).elim
  | timedOut ticket limit alarm purpose hd ha hf => exact (hfails hf).elim
  | acknowledged ticket limit alarm retries p' hd ha => exact .inr (ha.purpose hg hp).2
  | paused alarm stage retries ha hm => exact .inr (hm.purpose hg hp).2
  | taken | misdescribed | described | asked | skipped | refused | registered => cases hg; cases hp
  | _ => cases hg

/-- Every exchange of the session has the registration that it calls for. -/
def Host.Registered (opened : List Waiter) (h : Host) : Prop :=
  ∀ c ∈ h.calls, ∀ purpose, c.point.purpose? = some purpose → purpose ≠ .direct →
    ∃ w ∈ opened, c.point.ticket? = some w.ticket ∧ purpose.waiter? w.id = some w

namespace Host.Registered

variable {opened : List Waiter}

/-- Calls may leave or begin. -/
theorem subset (hr : h.Registered opened) (hx : ∀ c ∈ h'.calls, c ∈ h.calls ∨ c.point.purpose? = none)
    (more : List Waiter) : h'.Registered (opened ++ more) := by
  intro c hc purpose hp hd
  rcases hx c hc with hc | hn
  · obtain ⟨w, hw, hrest⟩ := hr c hc purpose hp hd
    exact ⟨w, List.mem_append_left _ hw, hrest⟩
  · rw [hn] at hp
    cases hp

theorem acts (hr : h.Registered opened) (hn : h.Numbered) (ha : Acts h a h') :
    h'.Registered (opened ++ h'.link.table.entries.filter fun w => h.link.table.nextId ≤ w.id) := by
  cases ha with
  | loop i hm ht => exact hr.subset (by rw [ht.calls]; exact fun c hc => .inl hc) _
  | dispatcher i hm ht => exact hr.subset (by rw [ht.calls]; exact fun c hc => .inl hc) _
  | @call _ i c m _ hc hm hl =>
    intro x hx purpose hp hd
    have hold : x ∈ h.calls → ∃ w ∈ opened ++ h'.link.table.entries.filter fun w => h.link.table.nextId ≤ w.id,
        x.point.ticket? = some w.ticket ∧ purpose.waiter? w.id = some w := fun hx => by
      obtain ⟨w, hw, hrest⟩ := hr x hx purpose hp hd
      exact ⟨w, List.mem_append_left _ hw, hrest⟩
    rcases hn.mem_callsAfter (call?_mem hc) (hl.calls ▸ hx) with ⟨hx, -⟩ | ⟨p, keeps, hf, rfl⟩ | ⟨-, rfl⟩
    · exact hold hx
    · rcases hm.purpose hf hp hd with ⟨hq, ht⟩ | ⟨w, hw, hid, hrest⟩
      · obtain ⟨w, hw, hticket, hwaiter⟩ := hr c (call?_mem hc) purpose hq hd
        exact ⟨w, List.mem_append_left _ hw, ht.trans hticket, hwaiter⟩
      · refine ⟨w, List.mem_append_right _ (List.mem_filter.mpr ⟨?_, decide_eq_true (Nat.le_of_eq hid.symm)⟩), hrest⟩
        rw [hl.link, Move.linkAfter, hf]
        exact hw
    · exact hold (call?_mem hc)
  | make r hm ready =>
    refine hr.subset (fun c hc => ?_) _
    rcases List.mem_append.mp hc with hc | hc
    · exact .inl hc
    · obtain rfl := List.mem_singleton.mp hc
      exact .inr rfl
  | abandon hc released hr' ready => exact hr.subset (fun c hc => .inl (List.mem_filter.mp hc).1) _
  | _ => exact hr.subset (fun c hc => .inl hc) _

/-- What is delivered to an exchange is what it waits for, and it was matched. -/
theorem delivered (hr : h.Registered opened) {taken : List (Waiter × Packet)} (hk : Kept opened taken h.live h.link)
    (hc : c ∈ h.calls) {t : Ticket} {limit : Option Nat} {alarm : Option Alarm} {purpose : Purpose}
    (hp : c.point = .awaiting t limit alarm purpose) (hd : purpose ≠ .direct) {p : Packet}
    (hdel : h.link.delivery? t.id = some (.ok p)) :
    ∃ w, (w, p) ∈ taken ∧ w.ticket = t ∧ purpose.waiter? t.id = some w ∧ w.accepts p := by
  obtain ⟨w, hw, ht, hwaiter⟩ := hr c hc purpose (by rw [hp]; rfl) hd
  obtain rfl : t = w.ticket := by
    rw [hp] at ht
    exact Option.some.inj ht
  have hlive : w.ticket ∈ h.live := mem_live hc (by rw [hp]; rfl)
  have hdel : h.link.delivery? w.id = some (.ok p) := hdel
  rcases hk.delivery? hw hlive with ⟨hn, -⟩ | ⟨p', hd', -, htaken⟩ | ⟨reason, hd', -⟩
  · rw [hdel] at hn
    cases hn
  · obtain rfl : p = p' := by simpa [hdel] using hd'
    exact ⟨w, htaken, rfl, hwaiter, (hk.accepted _ htaken).2⟩
  · rw [hdel] at hd'
    cases hd'

end Host.Registered

theorem Host.registered_run (config : SessionConfig) (twin : Twin) (as : List Action) :
    ((ofSession config twin).run as).Registered (((ofSession config twin).moments as).flatMap Moment.opened) := by
  induction as using List.reverseRecOn with
  | nil => exact List.forall_mem_nil _
  | append_singleton as a ih =>
    rw [run_concat, moments_concat, List.flatMap_append, List.flatMap_singleton]
    exact ih.acts ((Setup.session config twin).numbered_run as) (acts_ofSession config twin _ a)

end TwinLink
