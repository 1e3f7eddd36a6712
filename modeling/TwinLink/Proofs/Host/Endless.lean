import Mathlib.Data.List.Infix
import TwinLink.Proofs.Host.Holders

/-!
# Endless runs

* `onward as next n` : the first actions of a run that goes on forever;
* `exists_of_persists`, `exists_of_turn` : what stays until something comes of it leads to that in the end.
-/

namespace TwinLink

/-- The first actions of a run that goes on forever. -/
def onward (as : List Action) (next : Nat → Action) (n : Nat) : List Action := as ++ (List.range n).map next

theorem onward_succ (as : List Action) (next : Nat → Action) (n : Nat) :
    onward as next (n + 1) = onward as next n ++ [next n] := by
  simp [onward, List.range_succ]

theorem onward_mono (as : List Action) (next : Nat → Action) {m n : Nat} (h : m ≤ n) :
    onward as next m <+: onward as next n := by
  induction h with
  | refl => exact List.prefix_rfl
  | step _ ih =>
    rw [onward_succ]
    exact ih.trans (List.prefix_append _ _)

/-- What stays until something comes of it, and of which something comes in the end. -/
theorem exists_of_persists {P Q : Nat → Prop} {n k : Nat} (hn : P n) (hkeep : ∀ i, P i → P (i + 1) ∨ Q (i + 1))
    (hk : n ≤ k) (hstep : P k → Q (k + 1)) : ∃ j ≥ n, Q j := by
  by_contra hno
  have hQ : ∀ j, n ≤ j → ¬Q j := fun j hj hq => hno ⟨j, hj, hq⟩
  have hP : ∀ j, n ≤ j → P j := fun j hj => by
    induction hj with
    | refl => exact hn
    | @step j hj ih => exact (hkeep j ih).resolve_right (hQ (j + 1) (Nat.le_succ_of_le hj))
  exact hQ (k + 1) (Nat.le_succ_of_le hk) (hstep (hP k hk))

/-- What stays until an action of some kind leads to what comes of that. -/
theorem exists_of_turn {next : Nat → Action} {T : Action → Prop} {P Q : Nat → Prop} {n : Nat}
    (hfair : ∃ k ≥ n, T (next k)) (hn : P n) (hstep : ∀ j, P j → T (next j) → Q (j + 1))
    (hkeep : ∀ j, P j → ¬T (next j) → P (j + 1) ∨ Q (j + 1)) : ∃ j ≥ n, Q j := by
  obtain ⟨k, hk, ht⟩ := hfair
  refine exists_of_persists hn (fun j hj => ?_) hk fun hj => hstep k hj ht
  by_cases hact : T (next j)
  · exact .inr (hstep j hj hact)
  · exact hkeep j hj hact

end TwinLink
