import Signatory.Proofs.Service.Acceptance
import Signatory.Proofs.Service.Numbering
import Signatory.Proofs.Service.Sessions

/-!
# Numbers in turn

What a worker signs from one generation to the next takes one number after the other, in the order
in which the worker accepts it. Callers that run on their own come to a worker in the order in which
they were called, so they are given their numbers in that order, unless a worker has turned one of
them away or handed its request back: then it comes to the next worker when it gets there.
-/

namespace Signatory.Service.State

variable {front : List CallerId} {s t : State} {w : WorkerId} {n : Nat}
  {more piece : List (CallerId × Result)}

/-- Whatever is answered without moving the number leaves the identity as it was. -/
theorem Run.identity?_of_still (run : Run s t) (history : t.history w = s.history w ++ more)
    (still : ∀ r ∈ more, moves r.2 = false) : t.identity? w = s.identity? w := by
  let P (u : State) : Prop := ∀ more, u.history w = s.history w ++ more →
    (∀ r ∈ more, moves r.2 = false) → u.identity? w = s.identity? w
  have start : P s.bare := fun _ _ _ ↦ rfl
  refine Run.preserve (P := fun u ↦ s.bare.Later u ∧ P u) ?_ ?_ ⟨.refl _, start⟩ run |>.2 more
    history still
  · rintro u τ v ⟨later, kept⟩ change
    refine ⟨later.trans change.later, fun more history still ↦ ?_⟩
    obtain ⟨so_far, before⟩ : s.history w <+: u.history w := later.history w
    cases change.told w with
    | silent same identity => exact identity.trans (kept more (same ▸ history) still)
    | told found inside answers told =>
      rw [← before, List.append_assoc] at told
      obtain rfl := List.append_cancel_left (told.symm.trans history)
      have old := kept so_far before.symm fun r old ↦ still r (List.mem_append_left _ old)
      have last := answers.keeps (still _ (List.mem_append_right _ List.mem_cons_self))
      rw [last, ← old, identity?, found]
      rfl
  · rintro u v ⟨later, kept⟩ use
    refine ⟨later.trans use.later, fun more history still ↦ ?_⟩
    obtain ⟨same, identity⟩ := use.silent w
    exact identity.trans (kept more (same ▸ history) still)

/-- Callers that keep their turn are answered in the order in which they were called. -/
theorem Orderly.answered (h : Orderly front s) (settles : s.Settles w) :
    (((s.history w).map (·.1)).filter (s.keepsTurn front)).Pairwise (· < ·) := by
  obtain ⟨client, accepted, -⟩ := settles
  have line := h.line w
  rw [State.line, accepted, List.append_assoc, List.filter_append] at line
  exact (List.pairwise_append.mp line).1

end Signatory.Service.State
