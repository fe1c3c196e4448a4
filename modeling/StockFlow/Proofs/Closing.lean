import StockFlow.Proofs.Engine.Closing
import StockFlow.Proofs.Project

/-!
# Simulations of a text on a board that closes

* `Project.closing_keeps_record` — whenever the board closes, what is recorded is whole and is what
  would have been recorded anyway
-/

namespace StockFlow.Project

open Sim

variable {text : String} {p : Project} {id : SimId} {name label : String}
  {spec : Timespec Float} {s : Sim Float}

/-- **A board that closes spoils no record.** A simulation is run and its variables are set in any
order, on a board that closes after `k` more requests, be it in the middle of a step. At any moment,
its rows are a prefix of the rows that the same calls record on a board that stays open, and each of
them holds the time of a state and the value of each recorded variable. If no rule asks for a
default, all goes as if the board had stayed open. -/
theorem closing_keeps_record (hp : ofText text = .ok p)
    (hs : p.instantiateWith id name label spec = .ok s)
    (pinned : Std.TreeMap SimId (Std.TreeMap String Float)) (commands : List (Command Float))
    (k n : Nat) :
    let closing := (Progress.begin s ⟨pinned, some k⟩ commands).after
    let kept := (Progress.begin s ⟨pinned, none⟩ commands).after
    (closing n).rows <+: (kept n).rows ∧
      (∀ row ∈ (closing n).rows, ∃ m ≤ n, (closing m).sim.IsRow row) ∧
      ((∀ r ∈ s.model.equations.initials ++ s.model.equations.flows ++ s.model.equations.stocks,
          ∀ v, r.formula.readsDefault v = false) →
        (kept n).sim = (closing n).sim ∧ (kept n).pending = (closing n).pending ∧
          (kept n).answers = (closing n).answers) := by
  intro closing kept
  obtain ⟨hsound, hfresh⟩ := sound_of_instantiateWith hp hs
  have halive : (Progress.begin s ⟨pinned, some k⟩ commands).sim.Alive := Or.inl hfresh
  have hfollows : (closing n).Follows (kept n) := Progress.follows_after halive hsound n
  refine ⟨hfollows.rows_prefix, fun row hrow => ?_, fun hreads => ?_⟩
  · rcases Progress.isRow_of_mem_rows halive hsound hrow with hold | hrows
    · -- nothing is recorded before the first call
      have hnone : row ∈ s.report.rows.toList := hold
      rw [hfresh.rows] at hnone
      cases hnone
    · exact hrows
  · have hnoAsker : ∀ q, ¬(closing n).sim.Asker q := by
      rintro q ⟨hq, hasks⟩
      rw [(Progress.continues_after _ n).model] at hq
      obtain ⟨v, hv⟩ := List.exists_mem_of_ne_nil _ hasks
      have hreads' := hreads q (List.mem_append_left _ (List.mem_append_right _ hq)) v
      rw [Formula.readsDefault_iff.mpr hv] at hreads'
      cases hreads'
    rw [hfollows.reopened_eq hnoAsker]
    exact ⟨rfl, rfl, rfl⟩

/-- The level starts, the board closes, and the level is run to its end twice. -/
def closingCalls : List (Command Float) := [.run 0, .run 1, .run 1]

/-- The level that grows, if these calls are answered so and leave one row instead of two. -/
def closingRuns : Option (Project × Sim Float) := do
  let (p, s) ← growthSim oneStep
  let closing := (Progress.begin s ⟨∅, some 1⟩ closingCalls).after 6
  let kept := (Progress.begin s ⟨∅, none⟩ closingCalls).after 6
  if closing.answers = [none, some (.stopped "rate"), none] ∧ closing.rows.length = 1 ∧
      kept.answers = [none, none, none] ∧ kept.rows.length = 2 then
    return (p, s)
  else none

theorem closing_keeps_record_growth : ∃ p s, ofText growth = .ok p ∧
    p.instantiateWith 0 "main" "main" oneStep = .ok s ∧
    let closing := (Progress.begin s ⟨∅, some 1⟩ closingCalls).after 6
    let kept := (Progress.begin s ⟨∅, none⟩ closingCalls).after 6
    closing.answers = [none, some (.stopped "rate"), none] ∧ closing.rows.length = 1 ∧
      kept.rows.length = 2 ∧ closing.rows <+: kept.rows := by
  have hsome : closingRuns.isSome = true := by decide +kernel
  obtain ⟨runs, hruns⟩ := Option.isSome_iff_exists.mp hsome
  obtain ⟨⟨p, s⟩, hsim, hruns⟩ := Option.bind_eq_some_iff.mp hruns
  obtain ⟨⟨hanswers, hrows, _, hrows'⟩, _⟩ := Option.ite_none_right_eq_some.mp hruns
  obtain ⟨hp, hs⟩ := of_trial hsim
  exact ⟨p, s, hp, hs, hanswers, hrows, hrows', (closing_keeps_record hp hs ∅ closingCalls 1 6).1⟩

end StockFlow.Project
