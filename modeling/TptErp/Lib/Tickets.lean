import TptErp.Lib.Threads
import Mathlib.Algebra.GroupWithZero.Nat

/-!
# Tickets

A ticket is held by an instruction that is still to come, or it has been used; `f` counts how often the instruction
holds it, `d` how often the object says it was used, and `b` bounds the two together.

`tickets_step`: the bound is kept when each instruction hands on no more than it has, but for what it adds to the
bound.
-/

namespace Machine

variable {σ ι κ O ε : Type} (m : Machine σ ι κ O ε) (f : ι → Nat) (d b : σ → Nat)

/-- Held and used tickets, within the bound. -/
def Ticketed (w : State σ ι) : Prop := pendingSum f w + d w.core ≤ b w.core

/-- **Ticket rule.** -/
theorem tickets_step (hspawn : ∀ op, ∀ i ∈ m.prog op, f i = 0) (henv : ∀ c e, d (m.env c e) + b c ≤ d c + b (m.env c e))
    (hinstr : ∀ c i k core more, m.instr c i k = some (core, more) →
      (more.map f).sum + d core + b c ≤ f i + d c + b core)
    {w t : State σ ι} {a : Label κ O ε} (h : Ticketed f d b w) (ht : m.step w a = some t) : Ticketed f d b t := by
  unfold Ticketed at *
  cases m.moves_of_step ht with
  | spawn op =>
    have hnone : ((m.prog op).map f).sum = 0 := by
      refine List.sum_eq_zero fun x hx => ?_
      obtain ⟨i, hi, rfl⟩ := List.mem_map.mp hx
      exact hspawn op i hi
    rw [pendingSum_spawn, hnone]
    exact h
  | env e =>
    have he := henv w.core e
    have hpending : pendingSum f { w with core := m.env w.core e } = pendingSum f w := rfl
    rw [hpending]
    dsimp only
    omega
  | @run th choice i rest more core hth hi =>
    obtain ⟨others, hbefore, hafter⟩ := pendingSum_run f hth
    have hstep := hinstr w.core i choice core more hi
    rw [hafter core more]
    dsimp only
    omega

end Machine
