import Mathlib.Data.List.Permutation
import StockFlow.Proofs.Equation.InOrder
import StockFlow.Proofs.Graph.Stability

/-!
# Orders that keep the order of the list

Nodes of which neither relies on the other need not keep the order in which they are listed.

* `Graph.kept_iff_sooner` — when they do
* `Graph.not_kept_forked` — when they do not, though they could
-/

namespace StockFlow.Graph

variable {deps : String → List String} {list out : List String} {x y n d : String}

/-- **When two nodes keep their order** of which neither relies on the other: exactly if the first
is met sooner, and in any case if nothing that stands before it relies on the second. Rules are put
in the order of their names. -/
theorem kept_iff_sooner (hnd : list.Nodup) (h : order deps list = .ok out)
    (hapart : Apart deps list x y) (hbefore : list.idxOf x < list.idxOf y) :
    (out.idxOf x < out.idxOf y ↔ Sooner deps list x y list) ∧
      ((∀ z ∈ list, list.idxOf z < list.idxOf x → ¬Relies deps list z y) →
        out.idxOf x < out.idxOf y) ∧
      ∀ rules sorted, ruleNames rules = list → ruleReads rules = deps →
        orderRules rules = .ok sorted → ruleNames sorted = out := by
  have hiff := idxOf_lt_iff_sooner h hapart
  refine ⟨hiff, ?_, ?_⟩
  · intro hnone
    refine hiff.mpr (sooner_of_not_leads hapart hapart.left ?_)
    intro z hz hlt hleads
    rcases Relation.reflTransGen_iff_eq_or_transGen.mp hleads with rfl | hrelies
    · exact Nat.lt_asymm hlt hbefore
    · exact hnone z hz hlt hrelies
  · rintro rules sorted rfl rfl hsorted
    obtain ⟨_, horder, _⟩ := inOrder_of_orderRules hnd hsorted
    exact Except.ok.inj (horder.symm.trans h)

/-! ## Nodes that do not keep their order -/

/-- A node that depends on two others, which depend on nothing. -/
def forked (n : String) : List String := if n = "a" then ["b", "c"] else []

theorem of_relies_forked (h : Relies forked list n d) : n = "a" ∧ (d = "b" ∨ d = "c") := by
  have hdirect : ∀ {n d}, Needs forked list n d → n = "a" ∧ (d = "b" ∨ d = "c") := by
    rintro n d ⟨-, -, hd⟩
    unfold forked at hd
    split at hd
    · exact ⟨‹_›, by simpa using hd⟩
    · cases hd
  induction h with
  | single hneeds => exact hdirect hneeds
  | tail _ hneeds ih =>
    -- what a node depends on depends on nothing
    obtain ⟨heq, -⟩ := hdirect hneeds
    rw [heq] at ih
    exact absurd ih.2 (by decide)

theorem apart_forked : Apart forked ["a", "c", "b"] "c" "b" where
  left := by decide
  right := by decide
  ne := by decide
  not_relies := fun h => absurd (of_relies_forked h).1 (by decide)
  not_relied := fun h => absurd (of_relies_forked h).1 (by decide)

/-- Only the two others are apart. -/
theorem eq_of_apart_forked (h : Apart forked ["a", "c", "b"] x y) :
    x = "c" ∧ y = "b" ∨ x = "b" ∧ y = "c" := by
  have hother : ∀ {x y}, Apart forked ["a", "c", "b"] x y → x = "c" ∨ x = "b" := by
    intro x y h
    have hx := h.left
    have hy := h.right
    simp only [List.mem_cons, List.not_mem_nil, or_false] at hx hy
    refine hx.resolve_left ?_
    rintro rfl
    have hdep : y ∈ forked "a" := by
      rcases hy.resolve_left h.ne.symm with rfl | rfl <;> decide
    exact h.not_relies (.single ⟨h.left, h.right, hdep⟩)
  rcases hother h with rfl | rfl
  · exact Or.inl ⟨rfl, (hother h.symm).resolve_left h.ne.symm⟩
  · exact Or.inr ⟨rfl, (hother h.symm).resolve_right h.ne.symm⟩

/-- Rules of which one reads what two others compute. -/
def forkedRules : List (Rule Float) :=
  [⟨"a", .binary .add (.var "b") (.var "c")⟩, ⟨"c", .const 1⟩, ⟨"b", .const 2⟩]

/-- **Nodes can lose their order though it could be kept.** What a node depends on is placed in the
order in which the node depends on it, whatever the order of the list. -/
theorem not_kept_forked :
    order forked ["a", "c", "b"] = .ok ["b", "c", "a"] ∧
      (orderRules forkedRules).map ruleNames = .ok ["b", "c", "a"] ∧
      ruleNames forkedRules = ["a", "c", "b"] ∧
      Apart forked ["a", "c", "b"] "c" "b" ∧
      ["a", "c", "b"].idxOf "c" < ["a", "c", "b"].idxOf "b" ∧
      ¬["b", "c", "a"].idxOf "c" < ["b", "c", "a"].idxOf "b" ∧
      IsOrder forked ["a", "c", "b"] ["c", "b", "a"] ∧
      ∀ x y, Apart forked ["a", "c", "b"] x y →
        ["a", "c", "b"].idxOf x < ["a", "c", "b"].idxOf y →
          ["c", "b", "a"].idxOf x < ["c", "b", "a"].idxOf y := by
  refine ⟨by decide +kernel, by cbv, rfl, apart_forked, by decide, by decide,
    ⟨by decide, fun _ => (by decide : List.Perm _ _).mem_iff, ?_⟩, ?_⟩
  · intro n d hrelies
    obtain ⟨rfl, rfl | rfl⟩ := of_relies_forked hrelies <;> decide
  · intro x y hapart hlt
    rcases eq_of_apart_forked hapart with ⟨rfl, rfl⟩ | ⟨rfl, rfl⟩
    · decide
    · exact absurd hlt (by decide)

theorem kept_iff_sooner_forked :
    ["a", "c", "b"].Nodup ∧ order forked ["a", "c", "b"] = .ok ["b", "c", "a"] ∧
      Apart forked ["a", "c", "b"] "c" "b" ∧
      ["a", "c", "b"].idxOf "c" < ["a", "c", "b"].idxOf "b" ∧
      (["b", "c", "a"].idxOf "c" < ["b", "c", "a"].idxOf "b" ↔
        Sooner forked ["a", "c", "b"] "c" "b" ["a", "c", "b"]) := by
  have hnd : ["a", "c", "b"].Nodup := by decide
  have horder : order forked ["a", "c", "b"] = .ok ["b", "c", "a"] := by decide +kernel
  have hbefore : ["a", "c", "b"].idxOf "c" < ["a", "c", "b"].idxOf "b" := by decide
  exact ⟨hnd, horder, apart_forked, hbefore, (kept_iff_sooner hnd horder apart_forked hbefore).1⟩

end StockFlow.Graph
