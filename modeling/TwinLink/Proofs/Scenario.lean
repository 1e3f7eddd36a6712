import TwinLink.Proofs.Host.OneThread
import TwinLink.Proofs.Link.Ending
import TwinLink.Scenario.Play

/-!
# What is played is a run

A scenario plays the device and the callers against a host whose actors take turns on one thread. Whatever it comes to, a
run comes to it too, so what holds after every run holds after every step of every scenario.

* `Step.fits` : the steps for a host with or without a session;
* `Play.performed` : a step of a scenario is a run;
* `Play.after` : where a scenario stands after some steps, `playAll_concat` being the report that it gives there;
* `Setup.played_run`, `Setup.reported_run` : whatever is played is a run, and whatever is reported is seen of one.
-/

namespace TwinLink

namespace Scenario

/-- The steps that there are for a host: nobody drops the listener of a session. -/
def Step.fits : Step → Setup → Bool
  | .dropListener, .session .. => false
  | _, _ => true

namespace Play

variable {h : Host} {p : Play}

/-! ## Steps -/

theorem settled (hr : h.Reaches p.host) : h.Reaches p.settle.host := hr.settle _

theorem acted (hr : h.Reaches p.host) (a : Action) : h.Reaches (p.act (·.apply a)).1.host := (hr.apply a).settle _

theorem actedHeld (hr : h.Reaches p.host) (a : Action) : h.Reaches (p.actHeld (·.apply a)).1.host := by
  unfold actHeld
  split
  · exact acted hr a
  · exact settled hr

theorem called (hr : h.Reaches p.host) (label : String) (r : Request) : h.Reaches (p.call label r).1.host := by
  unfold call
  split
  · exact settled hr
  · exact acted hr (.make r)

theorem drained (hr : h.Reaches p.host) (room : Nat) (taken : List Drained) :
    h.Reaches (drain room p taken).1.host := by
  induction room generalizing p taken with
  | zero => exact hr
  | succ room ih =>
    unfold drain
    split
    · rename_i event host he
      have happly : p.host.apply .takeEvent = host := by
        show (p.host.takeEvent?.map (·.2)).getD p.host = host
        rw [he]
        rfl
      exact ih (settled (happly ▸ hr.apply .takeEvent)) _
    · split <;> exact hr

/-- **A step of a scenario is a run.** -/
theorem performed (hr : h.Reaches p.host) {s : Step} (hs : s = .dropListener → p.host.session.dispatch = .absent) :
    h.Reaches (p.perform s).1.host := by
  cases s with
  | device bytes =>
    dsimp only [perform]
    split
    · exact hr
    · split
      · exact hr
      · exact acted hr (.receive bytes)
  | hangUp => exact acted hr .hangUp
  | breakRead text => exact acted hr (.breakRead text)
  | breakWrite text => exact acted hr (.breakWrite text)
  | advance ms => exact hr.elapse _ _ _
  | status => exact settled hr
  | call label r => exact called hr label r
  | cancel label =>
    dsimp only [perform]
    split
    · exact hr
    · exact (hr.apply (.abandon _)).settle _
  | register label type matcher =>
    dsimp only [perform]
    split
    · split
      · exact hr
      · rename_i host ticket hk
        have happly : p.host.apply (.register type matcher) = host := by
          simp only [Host.apply, hk]
        exact settled (happly ▸ hr.apply (.register type matcher))
    · exact hr
  | wait label limit =>
    dsimp only [perform]
    split
    · exact hr
    · exact called (p := { p with tickets := p.tickets.filter fun x => x.1 != label }) hr _ _
  | withdraw label =>
    dsimp only [perform]
    split
    · exact hr
    · exact acted hr (.withdraw _)
  | forward on => exact actedHeld hr (.forward on)
  | drain most =>
    dsimp only [perform]
    split
    · exact settled (drained hr _ _)
    · exact hr
  | dropListener =>
    have happly : p.host.apply .dropListener = p.host.dropListener := if_pos (hs rfl)
    exact (happly ▸ hr.apply .dropListener).settle _
  | dropHandle => exact acted hr .dropHandle
  | observe => exact actedHeld hr .observe
  | info | descriptor =>
    dsimp only [perform]
    split <;> exact hr

/-! ## Scenarios -/

/-- Where a scenario stands after the given steps. -/
def after (p : Play) (steps : List Step) : Play := steps.foldl (fun p s => ((p.perform s).1.report (p.perform s).2).1) p

end Play

/-- The report of a step is that of where the scenario stands by then. -/
theorem playAll_concat (p : Play) (steps : List Step) (s : Step) : playAll p (steps ++ [s]) =
    playAll p steps ++ [(((p.after steps).perform s).1.report ((p.after steps).perform s).2).2] := by
  induction steps generalizing p with
  | nil => rfl
  | cons t steps ih => exact congrArg (_ :: ·) (ih _)

end Scenario

open Scenario

namespace Setup

variable (setup : Setup)

theorem performed {p : Play} (hr : setup.host.Reaches p.host) {s : Step} (hs : s.fits setup) :
    setup.host.Reaches (p.perform s).1.host := by
  refine Play.performed hr fun he => ?_
  -- only a link has a listener to drop
  obtain ⟨as, ready, hrun⟩ := hr
  rw [hrun]
  cases setup with
  | link config => exact (Host.bare_run config as).dispatch
  | session config twin => cases he ▸ hs

/-- **Whatever is played is a run.** -/
theorem played_run (steps : List Step) (hs : ∀ s ∈ steps, s.fits setup) :
    setup.host.Reaches (Play.after { host := setup.host } steps).host := by
  induction steps using List.reverseRecOn with
  | nil => exact .refl _
  | append_singleton steps s ih =>
    have hr := ih fun t ht => hs t (List.mem_append_left _ ht)
    rw [Play.after, List.foldl_append]
    exact setup.performed hr (hs s (List.mem_append_right _ List.mem_cons_self))

/-- **Whatever is reported is seen of a run.** -/
theorem reported_run (steps : List Step) (hs : ∀ s ∈ steps, s.fits setup) :
    ∀ r ∈ playAll { host := setup.host } steps, ∃ (p : Play) (outcome : Outcome),
      setup.host.Reaches p.host ∧ (p.report outcome).2 = r := by
  induction steps using List.reverseRecOn with
  | nil => exact fun _ hr => absurd hr List.not_mem_nil
  | append_singleton steps s ih =>
    have hs' : ∀ t ∈ steps, t.fits setup := fun t ht => hs t (List.mem_append_left _ ht)
    intro r hr
    rw [playAll_concat] at hr
    rcases List.mem_append.mp hr with hr | hr
    · exact ih hs' r hr
    · obtain rfl := List.mem_singleton.mp hr
      exact ⟨_, _, setup.performed (setup.played_run steps hs') (hs s (List.mem_append_right _ List.mem_cons_self)), rfl⟩

end Setup
end TwinLink
