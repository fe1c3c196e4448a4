/-!
# Paths that visit a node once

A search that refuses to enter a node of its own path ends, because the nodes that are not yet on
the path become fewer with each step.

* `unvisited_cons_lt` — a step to a new node leaves fewer
-/

namespace StockFlow.Graph

/-- How many of the nodes are not on the path. -/
def unvisited (nodes path : List String) : Nat := (nodes.filter fun n => n ∉ path).length

theorem filter_length_le {α : Type} {p q : α → Bool} (h : ∀ a, q a = true → p a = true)
    (xs : List α) : (xs.filter q).length ≤ (xs.filter p).length := by
  induction xs with
  | nil => simp
  | cons x xs ih =>
    simp only [List.filter_cons]
    by_cases hq : q x = true
    · simp only [hq, h x hq, ↓reduceIte, List.length_cons]
      omega
    · by_cases hp : p x = true
      · simp only [hq, hp, Bool.false_eq_true, ↓reduceIte, List.length_cons]
        omega
      · simp only [hq, hp, Bool.false_eq_true, ↓reduceIte]
        exact ih

theorem filter_length_lt {α : Type} {p q : α → Bool} (h : ∀ a, q a = true → p a = true)
    {a : α} {xs : List α} (ha : a ∈ xs) (hp : p a = true) (hq : q a = false) :
    (xs.filter q).length < (xs.filter p).length := by
  induction xs with
  | nil => simp at ha
  | cons x xs ih =>
    have hle := filter_length_le h xs
    simp only [List.filter_cons]
    rcases List.mem_cons.1 ha with rfl | hmem
    · simp only [hp, hq, Bool.false_eq_true, ↓reduceIte, List.length_cons]
      omega
    · have := ih hmem
      by_cases hqx : q x = true
      · simp only [hqx, h x hqx, ↓reduceIte, List.length_cons]
        omega
      · by_cases hpx : p x = true <;>
          simp only [hqx, hpx, Bool.false_eq_true, ↓reduceIte, List.length_cons] <;> omega

/-- **A step to a node that is not on the path leaves fewer.** -/
theorem unvisited_cons_lt {nodes path : List String} {n : String} (hn : n ∈ nodes)
    (hpath : n ∉ path) : unvisited nodes (n :: path) < unvisited nodes path := by
  refine filter_length_lt ?_ hn (by simpa using hpath) (by simp)
  intro a ha
  simp only [List.mem_cons, not_or, decide_eq_true_eq] at ha ⊢
  exact ha.2

end StockFlow.Graph
