import TwinLink.Proofs.Link.Waits
import TwinLink.Proofs.Session.Requests

/-!
# Sends and what becomes of them

Whatever a call asks, it hands a packet to the link in one way: it waits for a place in the command queue, and then for
its frame to be written. In between the frame is taken up and written by the loop.

* `Point.outgoing`, `Point.sends` : the packet that a call is about to send, and a call whose send is under way;
* `SendEvent`, `Moment.sendEvent` : what can be seen to happen to a send; `Host.sendResult` : what it returns;
* `Outbox`, `Host.outbox` : the sends of a run, and how far they have come;
* `SendMove`, `CallMove.sends` : what a move of a call can do to its send;
* `Moment.sendEvent_returned`, `Moment.news_of_send` : a send returns as soon as it can, and is answered then.
-/

namespace TwinLink

open Decoder (frameOf)

/-! ## What is seen of sends -/

/-- The packet that a call at this point hands to the link next. -/
def Point.outgoing : Point → Option Packet
  | begun (.send p) => some p
  | begun (.exchange p _ _) => some p
  | begun .start => some (.bare Stage.reset.request)
  | inLine plan => some plan.request
  | awaiting _ _ _ (.handshake .reset _) => some (.bare Stage.describe.request)
  | pausing _ stage _ => some (.bare stage.request)
  | _ => none

/-- The call waits for its frame to be written. -/
def Point.writes : Point → Bool
  | writing .. => true
  | _ => false

/-- A send of the call is under way: it waits for a place in the command queue, or for its frame to be written. -/
def Point.sends : Point → Bool
  | entering .. => true
  | writing .. => true
  | _ => false

theorem Point.writes_of_sends {q : Point} (hs : q.sends = false) : q.writes = false := by
  cases q <;> first | rfl | cases hs

/-- What happens to a send of the call `caller`: it is called, its frame gets a place in the command queue, the loop takes
the frame up, has written it, and the send returns. -/
inductive SendEvent
  | called (caller : Nat) (p : Packet)
  | queued (caller : Nat)
  | taken (caller : Nat)
  | written (caller : Nat)
  | returned (caller : Nat) (result : Except LinkError Unit)
deriving DecidableEq, Repr

/-- What the send of a call returns now: an error if its frame is not taken, or else what the loop has reported. -/
def Host.sendResult (h : Host) (c : Call) : Option (Except LinkError Unit) :=
  match c.point with
  | .entering frame _ _ _ =>
    match (h.link.commands.offer (.call c.id) (.write c.id frame)).2 with
    | .refused => some (.error h.link.closedError)
    | _ => none
  | .writing .. => h.link.receipt? c.id
  | _ => none

/-- What a step of a call does to its send, `later` being where the call stands after it. -/
def Host.callEvent (h : Host) (c : Call) (later : Option Point) : Option SendEvent :=
  match c.point, later with
  | .entering .., some (.writing ..) => some (.queued c.id)
  | point, some (.entering ..) => point.outgoing.map (.called c.id ·)
  | _, _ => (h.sendResult c).map (.returned c.id ·)

/-- What a step of the loop does to a send. -/
def LoopPoint.event : LoopPoint → LoopPoint → Option SendEvent
  | .listening, .writing caller _ => some (.taken caller)
  | .writing caller _, .listening => some (.written caller)
  | _, _ => none

/-- What the action `a` does to a send, `h'` being the host after it. -/
def Host.sendEvent (h : Host) (a : Action) (h' : Host) : Option SendEvent :=
  match a with
  | .advance (.call id) _ => (h.call? id).bind fun c => h.callEvent c ((h'.call? id).map (·.point))
  | .advance .loop _ => h.link.loop.event h'.link.loop
  | _ => none

/-- What happens to a send. -/
def Moment.sendEvent (m : Moment) : Option SendEvent := m.host.sendEvent m.action m.after

/-! ## The sends of a run -/

/-- A send: the how many-th of the run it is, the call that makes it, and its packet. -/
structure Send where
  number : Nat
  caller : Nat
  packet : Packet
deriving DecidableEq, Repr

/-- What is written for it. -/
def Send.frame (s : Send) : Bytes := frameOf s.packet

/-- How it is put into the command queue. -/
def Send.command (s : Send) : LinkCommand := .write s.caller s.frame

/-- The sends of a run in the order they were called, those that got into the command queue, those that the loop took up,
and those it has written, each in the order in which that happened; and what sends have returned. -/
structure Outbox where
  called : List Send := []
  queued : List Send := []
  taken : List Send := []
  written : List Send := []
  returned : List (Send × Except LinkError Unit) := []

namespace Outbox

/-- The last send of a call. -/
def last (b : Outbox) (caller : Nat) : Option Send := b.called.reverse.find? (·.caller == caller)

/-- What happens to a send of a call, happens to its last. -/
def record (b : Outbox) : SendEvent → Outbox
  | .called caller p => { b with called := b.called ++ [⟨b.called.length, caller, p⟩] }
  | .queued caller => { b with queued := b.queued ++ (b.last caller).toList }
  | .taken caller => { b with taken := b.taken ++ (b.last caller).toList }
  | .written caller => { b with written := b.written ++ (b.last caller).toList }
  | .returned caller r => { b with returned := b.returned ++ ((b.last caller).map (·, r)).toList }

end Outbox

/-- The sends of a run. -/
def Host.outbox (h : Host) (as : List Action) : Outbox :=
  ((h.moments as).filterMap Moment.sendEvent).foldl Outbox.record {}

theorem Host.outbox_concat (h : Host) (as : List Action) (a : Action) :
    h.outbox (as ++ [a]) = (Moment.sendEvent ⟨h.run as, a⟩).toList.foldl Outbox.record (h.outbox as) := by
  rw [outbox, seen_concat, List.foldl_append]
  rfl

theorem Outbox.last_caller {b : Outbox} {id : Nat} {s : Send} (hs : b.last id = some s) : s.caller = id := by
  simpa using List.find?_some hs

theorem Outbox.last_mem {b : Outbox} {id : Nat} {s : Send} (hs : b.last id = some s) : s ∈ b.called :=
  List.mem_reverse.mp (List.mem_of_find?_eq_some hs)

/-- The newest send is the last of its call. -/
theorem Outbox.last_called (b : Outbox) (caller id : Nat) (p : Packet) : (b.record (.called caller p)).last id =
    if caller = id then some ⟨b.called.length, caller, p⟩ else b.last id := by
  show (b.called ++ [_]).reverse.find? _ = _
  rw [List.reverse_append, List.reverse_singleton, List.singleton_append, List.find?_cons]
  by_cases he : caller = id
  · simp [he]
  · simp [he, last, beq_false_of_ne he]

/-! ## What a move of a call does to its send -/

/-- Where a call stands after a move. -/
def Move.pointAfter (m : Move) (c : Call) : Option Point :=
  match m.fate with
  | .goes p _ => some p
  | .ends _ => none
  | .stays => some c.point

/-- What a move of the call `c` does to its send. -/
inductive SendMove (h : Host) (c : Call) (m : Move) : Option SendEvent → Prop
  /-- The send is called. -/
  | calls {p : Packet} {ticket : Option Ticket} {limit : Option Nat} {purpose : Purpose} {keeps : Bool}
      (hp : c.point.outgoing = some p) (hs : c.point.sends = false)
      (hf : m.fate = .goes (.entering (frameOf p) ticket limit purpose) keeps) :
      SendMove h c m (some (.called c.id p))
  /-- Its frame gets a place in the command queue. -/
  | queues {frame : Bytes} {ticket : Option Ticket} {limit : Option Nat} {purpose : Purpose}
      (hp : c.point = .entering frame ticket limit purpose) {commands : Channel LinkCommand}
      (ho : h.link.commands.offer (.call c.id) (.write c.id frame) = (commands, .admitted))
      (hl : m.link = { h.link with commands := commands })
      (hf : m.fate = .goes (.writing ticket limit purpose) false) : SendMove h c m (some (.queued c.id))
  /-- It returns. -/
  | returns {r : Except LinkError Unit} (hs : c.point.sends) (hr : h.sendResult c = some r) (hf : m.fate ≠ .stays)
      (hg : ∀ p keeps, m.fate = .goes p keeps → p.sends = false) : SendMove h c m (some (.returned c.id r))
  /-- It goes on to wait, or there is none. -/
  | other (hr : h.sendResult c = none) (hw : c.point.writes = false)
      (hf : m.fate = .stays ∨ c.point.sends = false ∧ ∀ p keeps, m.fate = .goes p keeps → p.sends = false) :
      SendMove h c m none

variable {h : Host} {c : Call} {q : Point} {m : Move} {l : Link} {s : Session} {notes : List Happening}

theorem Host.Leaves.pointAfter {h' : Host} (hl : h.Leaves c m h') (hc : c ∈ h.calls) (hn' : h'.Numbered) :
    (h'.call? c.id).map (·.point) = m.pointAfter c := by
  unfold Move.pointAfter
  have hcalls := hl.calls
  split
  · rename_i p keeps hf
    have hmem := Move.mem_callsAfter_of_goes hc hf
    rw [← hcalls] at hmem
    have hcall := hn'.call?_of_mem hmem
    dsimp only at hcall
    rw [hcall]
    rfl
  · rename_i answer hf
    cases hcall : h'.call? c.id with
    | none => rfl
    | some x =>
      have hx := call?_mem hcall
      rw [hcalls, Move.callsAfter, hf, List.mem_filter] at hx
      simp [call?_id hcall] at hx
  · rename_i hf
    have hmem : c ∈ h'.calls := by
      rw [hcalls, Move.callsAfter, hf]
      exact hc
    rw [hn'.call?_of_mem hmem]
    rfl

/-- What a move of a call does to its send, seen from outside. -/
theorem Host.sendEvent_call {h' : Host} {id : Nat} (i : Bool) (hc : h.call? id = some c) (hl : h.Leaves c m h')
    (hn' : h'.Numbered) : h.sendEvent (.advance (.call id) i) h' = h.callEvent c (m.pointAfter c) := by
  obtain rfl := call?_id hc
  show (h.call? c.id).bind (fun c' => h.callEvent c' ((h'.call? c.id).map (·.point))) = _
  rw [hc, Option.bind_some, hl.pointAfter (call?_mem hc) hn']

/-- After a failure no send is under way. -/
theorem Fails.sends {purpose : Purpose} {e : LinkError} (hf : Fails h l notes purpose e m) :
    m.fate ≠ .stays ∧ ∀ p keeps, m.fate = .goes p keeps → p.sends = false := by
  cases hf with
  | direct | operation => exact ⟨nofun, fun p keeps hg => by cases hg⟩
  | retry | fault => exact ⟨nofun, fun p keeps hg => by cases hg; rfl⟩

theorem Host.sendResult_none (hs : c.point.sends = false) : h.sendResult c = none := by
  unfold sendResult
  split
  · rename_i hp
    rw [hp] at hs
    cases hs
  · rename_i hp
    rw [hp] at hs
    cases hs
  · rfl

theorem Host.callEvent_other (hs : c.point.sends = false) (hg : ∀ p keeps, m.fate = .goes p keeps → p.sends = false) :
    h.callEvent c (m.pointAfter c) = none := by
  unfold callEvent
  split
  · rename_i hp _
    rw [hp] at hs
    cases hs
  · rename_i hp
    unfold Move.pointAfter at hp
    split at hp
    · rename_i p keeps hf
      cases hp
      cases hg _ _ hf
    · cases hp
    · obtain hp := Option.some.inj hp
      rw [hp] at hs
      cases hs
  · rw [sendResult_none hs]
    rfl

theorem Host.callEvent_returns {r : Except LinkError Unit} (hr : h.sendResult c = some r) (hf : m.fate ≠ .stays)
    (hg : ∀ p keeps, m.fate = .goes p keeps → p.sends = false) :
    h.callEvent c (m.pointAfter c) = some (.returned c.id r) := by
  have hnot : ∀ p, m.pointAfter c = some p → p.sends = false := by
    intro p hp
    unfold Move.pointAfter at hp
    split at hp
    · rename_i p' keeps hf
      cases hp
      exact hg _ _ hf
    · cases hp
    · exact absurd ‹_› hf
  unfold callEvent
  split
  · rename_i hp
    cases hnot _ hp
  · rename_i hp
    cases hnot _ hp
  · rw [hr]
    rfl

/-- A call that goes on to enter a frame has called a send. -/
theorem SendMove.of_calls {p : Packet} {ticket : Option Ticket} {limit : Option Nat} {purpose : Purpose} {keeps : Bool}
    (hp : c.point.outgoing = some p) (hs : c.point.sends = false)
    (hf : m.fate = .goes (.entering (frameOf p) ticket limit purpose) keeps) :
    SendMove h c m (h.callEvent c (m.pointAfter c)) := by
  have he : h.callEvent c (m.pointAfter c) = some (.called c.id p) := by
    unfold Move.pointAfter Host.callEvent
    rw [hf]
    split
    · rename_i hw
      cases hw
    · rw [hp]
      rfl
    · rename_i hno _
      exact (hno _ _ _ _ rfl).elim
  rw [he]
  exact .calls hp hs hf

theorem SendMove.of_other (hs : c.point.sends = false) (hg : ∀ p keeps, m.fate = .goes p keeps → p.sends = false) :
    SendMove h c m (h.callEvent c (m.pointAfter c)) := by
  rw [Host.callEvent_other hs hg]
  exact .other (Host.sendResult_none hs) (Point.writes_of_sends hs) (.inr ⟨hs, hg⟩)

/-- A request of the handshake is a send. -/
theorem Attempts.sends {stage : Stage} {retries : Nat} (ha : Attempts l s notes stage retries m)
    (hp : c.point.outgoing = some (.bare stage.request)) (hs : c.point.sends = false) :
    SendMove h c m (h.callEvent c (m.pointAfter c)) := by
  cases ha with
  | opened ho => exact .of_calls hp hs rfl
  | closed => exact .of_other hs fun p keeps hg => by cases hg; rfl

/-- **Every move of a call does one of these to its send.** -/
theorem CallMove.sends (hm : CallMove h c c.point m) : SendMove h c m (h.callEvent c (m.pointAfter c)) := by
  generalize hq : c.point = q at hm
  have hother : q.sends = false → (∀ p keeps, m.fate = .goes p keeps → p.sends = false) →
      SendMove h c m (h.callEvent c (m.pointAfter c)) := by
    intro hs hg
    exact .of_other (by rw [hq]; exact hs) hg
  have hcalls : ∀ p ticket limit purpose keeps, q.outgoing = some p → q.sends = false →
      m.fate = .goes (.entering (frameOf p) ticket limit purpose) keeps →
      SendMove h c m (h.callEvent c (m.pointAfter c)) := by
    intro p ticket limit purpose keeps hp hs hf
    exact .of_calls (by rw [hq]; exact hp) (by rw [hq]; exact hs) hf
  have hreturns : ∀ r, q.sends → h.sendResult c = some r → m.fate ≠ .stays →
      (∀ p keeps, m.fate = .goes p keeps → p.sends = false) → SendMove h c m (h.callEvent c (m.pointAfter c)) := by
    intro r hs hr hf hg
    rw [Host.callEvent_returns hr hf hg]
    exact .returns (by rw [hq]; exact hs) hr hf hg
  have hreceipt : ∀ {ticket limit purpose}, q = .writing ticket limit purpose →
      h.sendResult c = h.link.receipt? c.id := by
    intro ticket limit purpose hw
    unfold Host.sendResult
    rw [hq, hw]
  cases hm with
  | begin hm =>
    cases hm with
    | send p => exact hcalls p _ _ _ _ rfl rfl rfl
    | exchange p expect limit ho => exact hcalls p _ _ _ _ rfl rfl rfl
    | start hp ht ha => exact ha.sends (by rw [hq]; rfl) (by rw [hq]; rfl)
    | _ => exact hother rfl fun p keeps hg => by cases hg <;> rfl
  | locked plan ha ho => exact hcalls plan.request _ _ _ _ rfl rfl rfl
  | entered frame ticket limit purpose ho =>
    have he : h.callEvent c (some (.writing ticket limit purpose)) = some (.queued c.id) := by
      unfold Host.callEvent
      rw [hq]
    show SendMove h c _ (h.callEvent c (some (.writing ticket limit purpose)))
    rw [he]
    exact .queues hq ho rfl rfl
  | queued frame ticket limit purpose ho =>
    have he : h.callEvent c (some c.point) = none := by
      unfold Host.callEvent
      rw [hq]
      rfl
    show SendMove h c _ (h.callEvent c (some c.point))
    rw [he]
    refine .other ?_ (by rw [hq]; rfl) (.inl rfl)
    simp [Host.sendResult, hq, ho]
  | shutOut frame ticket limit purpose hc hf =>
    refine hreturns (.error h.link.closedError) rfl ?_ hf.sends.1 hf.sends.2
    unfold Host.sendResult Channel.offer
    rw [hq]
    simp [hc]
  | unwritten ticket limit purpose e hr hf =>
    exact hreturns (.error e) rfl ((hreceipt rfl).trans hr) hf.sends.1 hf.sends.2
  | sent limit purpose hr => exact hreturns (.ok ()) rfl ((hreceipt rfl).trans hr) nofun fun p keeps hg => by cases hg
  | written ticket limit purpose hr =>
    exact hreturns (.ok ()) rfl ((hreceipt rfl).trans hr) nofun fun p keeps hg => by cases hg; rfl
  | failed ticket limit alarm purpose e hd hf => exact hother rfl hf.sends.2
  | timedOut ticket limit alarm purpose hd ha hf => exact hother rfl hf.sends.2
  | acknowledged ticket limit alarm retries p hd ha => exact ha.sends (by rw [hq]; rfl) (by rw [hq]; rfl)
  | paused alarm stage retries ha hm => exact hm.sends (by rw [hq]; rfl) (by rw [hq]; rfl)
  | _ => exact hother rfl fun p keeps hg => by cases hg <;> rfl

/-- The send of a call that has to wait does not return. -/
theorem Host.sendResult_waits (hr : h.pointStep c = none) : h.sendResult c = none := by
  unfold pointStep at hr
  unfold sendResult
  cases hp : c.point with
  | entering frame ticket limit purpose =>
    rw [hp] at hr
    unfold enterStep at hr
    dsimp only at hr ⊢
    cases ho : (h.link.commands.offer (.call c.id) (.write c.id frame)).2 with
    | refused => rw [ho] at hr; cases hr
    | _ => rfl
  | writing ticket limit purpose =>
    rw [hp] at hr
    unfold writeStep at hr
    cases hl : h.link.receipt? c.id with
    | none => rfl
    | some r =>
      rw [hl] at hr
      cases r with
      | error e => cases hr
      | ok => cases ticket <;> cases hr
  | _ => rfl

theorem Host.callEvent_waits (hr : h.pointStep c = none) : h.callEvent c (some c.point) = none := by
  have hnone := sendResult_waits hr
  unfold callEvent
  cases hp : c.point with
  | entering => rfl
  | _ => simp [hnone]

theorem LoopPoint.event_self (p : LoopPoint) : p.event p = none := by
  cases p <;> rfl

/-- What is not possible does nothing to a send. -/
theorem Host.sendEvent_refused {a : Action} (hr : h.Refuses a) : h.sendEvent a h = none := by
  unfold sendEvent
  split
  · rename_i id i
    cases hc : h.call? id with
    | none => rfl
    | some c =>
      have hr : (h.call? id).bind h.pointStep = none := hr
      rw [hc] at hr
      exact callEvent_waits hr
  · exact LoopPoint.event_self _
  · rfl

/-- A call that takes a step has to wait, or does to its send what its move does. -/
theorem Moment.mover_sends {m : Moment} (hc : m.mover = some c) (hn : m.host.Numbered) :
    (m.after = m.host ∧ m.host.sendResult c = none ∧ m.sendEvent = none) ∨
      ∃ move, CallMove m.host c c.point move ∧ m.host.Leaves c move m.after ∧ SendMove m.host c move m.sendEvent := by
  obtain ⟨hmem, hacts⟩ := Moment.mover_acts hc
  obtain ⟨h, a⟩ := m
  unfold mover at hc
  split at hc
  · rename_i id i ha
    obtain rfl : a = _ := ha
    rcases hacts with ⟨hwait, hsame⟩ | ⟨move, hm, hl⟩
    · refine .inl ⟨hsame, Host.sendResult_waits hwait, ?_⟩
      have hr : h.Refuses (.advance (.call id) i) := by
        show (h.call? id).bind h.pointStep = none
        rw [hc]
        exact hwait
      show h.sendEvent _ (Moment.mk h _).after = none
      rw [hsame]
      exact Host.sendEvent_refused hr
    · refine .inr ⟨move, hm, hl, ?_⟩
      have hevent : Moment.sendEvent ⟨h, .advance (.call id) i⟩ = h.callEvent c (move.pointAfter c) :=
        Host.sendEvent_call i hc hl (hn.leaves hl)
      rw [hevent]
      exact hm.sends
  · cases hc

/-- **A send returns as soon as there is something to return.** -/
theorem Moment.sendEvent_returned {m : Moment} {r : Except LinkError Unit} (hc : m.mover = some c)
    (hr : m.host.sendResult c = some r) (hn : m.host.Numbered) : m.sendEvent = some (.returned c.id r) := by
  rcases Moment.mover_sends hc hn with ⟨-, hwait, -⟩ | ⟨move, -, -, hsend⟩
  · rw [hwait] at hr
    cases hr
  · generalize m.sendEvent = event at hsend ⊢
    cases hsend with
    | calls hp hs hf =>
      rw [Host.sendResult_none hs] at hr
      cases hr
    | queues hp ho hl hf =>
      have hnone : m.host.sendResult c = none := by simp [Host.sendResult, hp, ho]
      rw [hnone] at hr
      cases hr
    | returns hs hr' hf hg =>
      obtain rfl := Option.some.inj (hr.symm.trans hr')
      rfl
    | other hr' hw hf =>
      rw [hr'] at hr
      cases hr

/-! ## Answers -/

/-- The call asks nothing but to send a packet. -/
def Point.onlySends : Point → Bool
  | entering _ none _ .direct => true
  | writing none _ .direct => true
  | _ => false

/-- The answer of such a call. -/
def Answer.ofSend : Except LinkError Unit → Answer
  | .ok () => .ok .done
  | .error e => .error (.link e)

/-- What is answered when the send returns. -/
def SendEvent.answer? : SendEvent → Option Answer
  | returned _ r => some (.ofSend r)
  | _ => none

/-- What a move of a call that only sends enters into the history: the answer, when its send returns. -/
theorem SendMove.happenings {event : Option SendEvent} (hs : SendMove h c m event) (hm : CallMove h c c.point m)
    (hp : c.point.onlySends = true) : m.happenings = (event.bind SendEvent.answer?).toList.map .answered := by
  have hsends : c.point.sends = true := by
    generalize c.point = q at hp
    cases q <;> first | rfl | cases hp
  have hreturned : ∀ r, h.sendResult c = some r → event = some (.returned c.id r) := by
    intro r hr
    cases hs with
    | calls hp hno hf => rw [hsends] at hno; cases hno
    | queues hq ho hl hf => simp [Host.sendResult, hq, ho] at hr
    | returns hs hr' hf hg => rw [Option.some.inj (hr.symm.trans hr')]
    | other hr' hw hf => rw [hr'] at hr; cases hr
  have hwaits : h.sendResult c = none → event.bind SendEvent.answer? = none := by
    intro hr
    cases hs with
    | returns hs hr' hf hg => rw [hr'] at hr; cases hr
    | _ => rfl
  unfold Host.sendResult at hreturned hwaits
  generalize c.point = q at hm hp hreturned hwaits
  cases hm with
  | entered frame ticket limit purpose ho | queued frame ticket limit purpose ho =>
    dsimp only at hwaits
    rw [ho] at hwaits
    rw [hwaits rfl]
    rfl
  | shutOut frame ticket limit purpose hcl hf =>
    cases ticket with
    | some t => cases hp
    | none =>
      cases purpose with
      | direct =>
        have ho : h.link.commands.offer (.call c.id) (.write c.id frame) = (h.link.commands, .refused) := if_pos hcl
        dsimp only at hreturned
        rw [ho] at hreturned
        cases hf
        rw [hreturned _ rfl]
        rfl
      | _ => cases hp
  | unwritten ticket limit purpose e hd hf =>
    cases ticket with
    | some t => cases hp
    | none =>
      cases purpose with
      | direct =>
        cases hf
        rw [hreturned _ hd]
        rfl
      | _ => cases hp
  | sent limit purpose hd =>
    rw [hreturned _ hd]
    rfl
  | written ticket => cases hp
  | _ => cases hp

/-- **A call that only sends answers with what its send returns, when it returns.** -/
theorem Moment.news_of_send {m : Moment} (hc : m.mover = some c) (hp : c.point.onlySends = true)
    (hn : m.host.Numbered) :
    m.news = (m.sendEvent.bind SendEvent.answer?).toList.map (⟨.call c.id, m.host.now, .answered ·⟩) := by
  rcases Moment.mover_sends hc hn with ⟨hsame, -, hnone⟩ | ⟨move, hm, hl, hsend⟩
  · have hnews : m.after.history = [] ++ m.host.history := by
      rw [hsame]
      rfl
    rw [hnone]
    exact Moment.news_eq hnews
  · rw [Moment.news_eq hl.history, hsend.happenings hm hp, List.map_map]
    rfl

end TwinLink
