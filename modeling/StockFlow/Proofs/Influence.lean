import StockFlow.Proofs.Engine.Influence
import StockFlow.Proofs.Project

/-!
# What a setting reaches

A variable that is set from outside is read by others, which are read by others in turn. What does
not read it in this way, now or in a later step, does not notice.

* `Model.DependsOn` — the variables that are made from a variable
* `Project.set_confined` — a setting changes nothing but these
-/

namespace StockFlow

/-- The variables that depend on a variable: itself, and those of which a rule reads one that
does. -/
inductive Model.DependsOn {α : Type} (m : Model α) (c : String) : String → Prop
  | self : m.DependsOn c c
  | reads {r : Rule α} {n : String}
      (rule : r ∈ m.equations.initials ++ m.equations.flows ++ m.equations.stocks)
      (read : n ∈ r.formula.reads) (depends : m.DependsOn c n) : m.DependsOn c r.name

namespace Model

variable {α : Type} {m : Model α} {c : String}

theorem DependsOn.name {n : String} (h : m.DependsOn c n) : n = c ∨
    ∃ r ∈ m.equations.initials ++ m.equations.flows ++ m.equations.stocks, r.name = n := by
  cases h with
  | self => exact Or.inl rfl
  | reads rule _ _ => exact Or.inr ⟨_, rule, rfl⟩

/-- What does not depend on a variable reads nothing that does. -/
theorem not_dependsOn_of_reads {r : Rule α}
    (hr : r ∈ m.equations.initials ++ m.equations.flows ++ m.equations.stocks)
    (h : ¬m.DependsOn c r.name) : ∀ n ∈ r.formula.vars, ¬m.DependsOn c n :=
  fun _ hn hdep => h (.reads hr (Formula.mem_reads.mpr hn) hdep)

/-- A model is the same as itself outside of what depends on a variable. -/
theorem sameOutside_dependsOn (hs : m.Sound) (hc : c ∈ ruleNames m.equations.flows) :
    m.SameOutside (m.DependsOn c) (m.DependsOn c) m where
  flows := rfl
  stocks := rfl
  tables := rfl
  declares _ := rfl
  initialNames := rfl
  initials r hr h := ⟨hr, not_dependsOn_of_reads (by simp [hr]) h⟩
  reads r hr h := by
    refine not_dependsOn_of_reads ?_ h
    simp only [List.mem_append] at hr ⊢
    tauto
  time h := by
    rcases h.name with htime | ⟨r, hr, htime⟩
    · exact hs.time_not_flow (htime ▸ hc)
    · simp only [List.mem_append] at hr
      rcases hr with (hr | hr) | hr
      · exact hs.time_not_initial (htime ▸ name_mem_ruleNames hr)
      · exact hs.time_not_flow (htime ▸ name_mem_ruleNames hr)
      · exact hs.time_not_stock (htime ▸ name_mem_ruleNames hr)
  wider _ h := h
  anew _ h := Or.inl h

end Model

namespace Sim

variable {α : Type} {s t : Sim α} {b c : Board α}

/-- A setting that is accepted changes nothing at once but the variable and what is pinned for
it. -/
theorem sameOutside_setValue {name : String} {x : α} (hs : s.model.Sound)
    (hb : b.remaining = none) (hok : (s.setValue name x b).fault = none) :
    SameOutside (s.model.DependsOn name) (s.model.DependsOn name) s b (s.setValue name x b).sim
      (s.setValue name x b).board := by
  rcases s.setValue_cases name x b with ⟨e, he⟩ | ⟨_, hmem, he⟩
  · rw [he] at hok
    cases hok
  · have hmodel := Model.sameOutside_dependsOn hs hmem
    have hne : ∀ n, ¬s.model.DependsOn name n → name ≠ n := by
      rintro n hn rfl
      exact hn .self
    have hrows : List.Forall₂ (Report.SameRow (s.model.DependsOn name) s.report.names)
        s.report.rows.toList s.report.rows.toList :=
      List.forall₂_same.mpr fun _ _ => ⟨rfl, fun _ _ => rfl⟩
    have hanswers : ∀ n, ¬s.model.DependsOn name n →
        (b.pin s.id name x).lookup s.id s.model.defaults n =
          b.lookup s.id s.model.defaults n := by
      intro n hn
      rw [Board.lookup_pin, if_neg fun h => hne n hn h.2]
    rw [he, Board.tick_of_running hb]
    by_cases hp : s.phase = .fresh
    · rw [if_pos hp]
      exact ⟨rfl, hmodel, rfl, rfl, rfl, rfl, fun _ _ => rfl, rfl, rfl, hrows, hanswers⟩
    · rw [if_neg hp]
      exact ⟨rfl, hmodel, rfl, rfl, rfl, rfl,
        fun n hn => getElem?_assign_of_ne s x (hne n hn), rfl, rfl, hrows, hanswers⟩

end Sim

namespace Project

open Sim

variable {text : String} {p : Project} {id : SimId} {name label : String}
  {spec : Timespec Float} {s₀ s : Sim Float} {b₀ b : Board Float} {fuel : Nat}
  {before : List (Command Float)} {served : List (Served Float)} {c : String} {v : Float}

/-- **A setting changes nothing but what depends on the variable.** Whatever was run and set before,
one more setting that is accepted leaves everything else as it would have been, at once and in all
runs and settings that follow: they are answered the same, and in every state the time, the number
of steps and of rows, and the present and recorded values of all variables that do not depend on the
one that was set. -/
theorem set_confined (hp : ofText text = .ok p)
    (hs : p.instantiateWith id name label spec = .ok s₀) (hb : b₀.remaining = none)
    (hbefore : performAll fuel before s₀ b₀ = some (served, s, b))
    (hok : (s.setValue c v b).fault = none) :
    LooksSame (s₀.model.DependsOn c) s (s.setValue c v b).sim ∧
      ∀ fuel after, ServedAlike (LooksSame (s₀.model.DependsOn c)) (performAll fuel after s b)
        (performAll fuel after (s.setValue c v b).sim (s.setValue c v b).board) := by
  obtain ⟨hsound₀, hfresh⟩ := sound_of_instantiateWith hp hs
  obtain ⟨log, h, hlog⟩ := History.nil.performAll nofun hbefore
  have hsound := hsound₀.continues h.continues
  have halive := h.alive_of_running (Or.inl hfresh) hsound₀ hlog hb
  have hrunning := h.remaining hlog hb
  have hsame := sameOutside_setValue hsound.model hrunning hok
  rw [h.continues.model] at hsame
  have habreast : Abreast (SameOutside (s₀.model.DependsOn c) (s₀.model.DependsOn c)) s b
      (s.setValue c v b).sim (s.setValue c v b).board :=
    ⟨hsame, hrunning, remaining_setValue hrunning c v, hsound,
      hsound.continues (s.continues_setValue c v b), halive, halive.setValue c v b⟩
  exact ⟨hsame.looksSame, fun fuel after =>
    kept_sameOutside.performAll keptBySet_sameOutside SameOutside.looksSame habreast fuel after⟩

/-! ## A setting in the middle of a run -/

/-- A level that grows at a rate, and a size beside it. Both the rate and the size can be set. -/
def sized : String :=
  "model main \x7b rate aux = 2; size aux = 3; level = \x7binitial: 1, inflow: rate\x7d; \x7d"

/-- The level starts, and the rate can be set then. No rule reads anything for the size. -/
def sizedRuns : Option (Project × Sim Float × List (Served Float) × Sim Float × Board Float) := do
  let (p, s₀) ← trial sized oneStep
  let (served, s, b) ← performAll 5 [.run 0] s₀ .empty
  let rules := s₀.model.equations.initials ++ s₀.model.equations.flows ++ s₀.model.equations.stocks
  if (s.setValue "rate" 5 b).fault = none ∧ s.phase ≠ .fresh ∧
      ∀ r ∈ rules, r.name = "size" → r.formula.vars = [] then
    return (p, s₀, served, s, b)
  else none

theorem set_confined_sized : ∃ p s₀ served s b, ofText sized = .ok p ∧
    p.instantiateWith 0 "main" "main" oneStep = .ok s₀ ∧
    performAll 5 [.run 0] s₀ .empty = some (served, s, b) ∧ s.phase ≠ .fresh ∧
    (s.setValue "rate" 5 b).fault = none ∧ ¬s₀.model.DependsOn "rate" "size" ∧
    (s.setValue "rate" 5 b).sim.value "size" = s.value "size" ∧
    ServedAlike (LooksSame (s₀.model.DependsOn "rate")) (performAll 5 [.run 1] s b)
      (performAll 5 [.run 1] (s.setValue "rate" 5 b).sim (s.setValue "rate" 5 b).board) := by
  have hsome : sizedRuns.isSome = true := by decide +kernel
  obtain ⟨runs, hruns⟩ := Option.isSome_iff_exists.mp hsome
  obtain ⟨⟨p, s₀⟩, hsim, hruns⟩ := Option.bind_eq_some_iff.mp hruns
  obtain ⟨⟨served, s, b⟩, hbefore, hruns⟩ := Option.bind_eq_some_iff.mp hruns
  obtain ⟨⟨hok, hbegun, hsize⟩, _⟩ := Option.ite_none_right_eq_some.mp hruns
  obtain ⟨hp, hs⟩ := of_trial hsim
  have hnot : ¬s₀.model.DependsOn "rate" "size" := by
    intro hdep
    generalize hname : "size" = n at hdep
    cases hdep with
    | self => simp at hname
    | reads rule read _ =>
      rw [Formula.mem_reads, hsize _ rule hname.symm] at read
      cases read
  obtain ⟨hnow, hlater⟩ := set_confined hp hs rfl hbefore hok
  exact ⟨p, s₀, served, s, b, hp, hs, hbefore, hbegun, hok, hnot, hnow.value _ hnot,
    hlater 5 [.run 1]⟩

end Project

end StockFlow
