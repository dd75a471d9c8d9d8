/-!
# Runs of numbers

The numbers from a first one on for which something holds, up to the first for
which it does not or to a limit.
-/

set_option autoImplicit false

namespace EvidencePages

/-- What holds from `first` on holds of all numbers below `stop`, and then no longer, unless the
limit is reached. -/
structure Run (holds : Nat → Prop) (first limit stop : Nat) : Prop where
  start : first ≤ stop
  stop_le : stop ≤ limit
  each : ∀ number, first ≤ number → number < stop → holds number
  gap : stop < limit → ¬holds stop

namespace Run

variable {holds : Nat → Prop} {first limit stop other count : Nat}

theorem le (run : Run holds first limit stop) (also : Run holds first limit other) :
    other ≤ stop := by
  apply Nat.le_of_not_lt
  intro less
  exact run.gap (Nat.lt_of_lt_of_le less also.stop_le) (also.each stop run.start less)

theorem unique (run : Run holds first limit stop) (also : Run holds first limit other) :
    other = stop :=
  Nat.le_antisymm (run.le also) (also.le run)

theorem nothing : Run holds first first first :=
  ⟨Nat.le_refl first, Nat.le_refl first, fun _ low high => by omega, fun less => by omega⟩

theorem empty (more : first ≤ limit) (gap : ¬holds first) : Run holds first limit first :=
  ⟨Nat.le_refl first, more, fun _ low high => by omega, fun _ => gap⟩

theorem cons (here : holds first) (run : Run holds (first + 1) limit stop) :
    Run holds first limit stop := by
  refine ⟨Nat.le_of_succ_le run.start, run.stop_le, fun number low high => ?_, run.gap⟩
  rcases Nat.eq_or_lt_of_le low with rfl | more
  · exact here
  · exact run.each number more high

theorem tail (run : Run holds first limit stop) (more : first < stop) :
    Run holds (first + 1) limit stop :=
  ⟨more, run.stop_le, fun number low => run.each number (Nat.le_of_succ_le low), run.gap⟩

theorem exists_stop (holds : Nat → Prop) (first count : Nat) :
    ∃ stop, Run holds first (first + count) stop := by
  induction count generalizing first with
  | zero => exact ⟨first, nothing⟩
  | succ count ih =>
    by_cases here : holds first
    · obtain ⟨stop, run⟩ := ih (first + 1)
      rw [Nat.add_right_comm] at run
      exact ⟨stop, run.cons here⟩
    · exact ⟨first, empty (Nat.le_add_right _ _) here⟩

end Run

end EvidencePages
