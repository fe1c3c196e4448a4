import Mathlib.Data.List.Basic
import StockFlow.Grammar.Outline
import StockFlow.Proofs.Tree.Walk

/-!
# The order of a walk

A walk sees each node before the nodes below it and leaves it behind them. What a visitor passes
over or stops at only takes something away from this: the nodes below one that is passed over, and
all that comes behind the first one that is stopped at.

* `Node.occurrences` — a tree in preorder
* `Node.tour` — what is seen of a tree if nothing stops the walk
* `Trace.Nested` — no more nodes are left than were gone into
* `Trace.IsCutOf` — what is seen up to the first node that stops it
* `Node.walk_preorder` — a walk is the preorder of its tree, well nested and cut off where it stops
-/

namespace StockFlow

variable {ε : Type}

/-! ## What is seen of a tree -/

/-- The visitor goes on below the node. -/
def Decision.isEnter : Decision ε → Bool
  | enter => true
  | _ => false

/-- The visitor passes over what is below the node. -/
def Decision.isSkip : Decision ε → Bool
  | skip => true
  | _ => false

namespace Visit

/-- The node that a visit enters. -/
def entered? : Visit → Option Node
  | enter n => some n
  | leave => none

def isLeave : Visit → Bool
  | enter _ => false
  | leave => true

/-- A visit that enters a node below which the visitor goes on. -/
def opens (visitor : Node → Decision ε) : Visit → Bool
  | enter n => (visitor n).isEnter
  | leave => false

end Visit

namespace Node

/-- **What is seen of a tree** if nothing stops the walk: a node that is passed over is only
entered; any other is entered, then its children are seen, and then it is left. -/
def tour (skips : Node → Bool) (n : Node) : List Visit :=
  if skips n then [.enter n]
  else .enter n :: n.children.attach.flatMap (fun ⟨c, _hc⟩ => c.tour skips) ++ [.leave]
termination_by n
decreasing_by exact sizeOf_lt_of_mem_children _hc

/-- A node in a tree, with the nodes above it. -/
structure Occurrence where
  above : List Node
  node : Node

/-- **A tree in preorder:** each node stands before all that is below it. -/
def occurrences (above : List Node) (n : Node) : List Occurrence :=
  ⟨above, n⟩ :: n.children.attach.flatMap fun ⟨c, _hc⟩ => c.occurrences (n :: above)
termination_by n
decreasing_by exact sizeOf_lt_of_mem_children _hc

/-- No node above an occurrence is passed over. -/
def Occurrence.inView (skips : Node → Bool) (o : Occurrence) : Bool := o.above.all fun a => !skips a

variable {skips : Node → Bool} {n : Node} {above : List Node}

theorem tour_of_skip (h : skips n = true) : n.tour skips = [.enter n] := by
  rw [tour, if_pos h]

theorem tour_of_not_skip (h : skips n = false) :
    n.tour skips = .enter n :: n.children.flatMap (tour skips) ++ [.leave] := by
  rw [tour, if_neg (by simp [h])]
  simp

theorem occurrences_eq (above : List Node) (n : Node) :
    n.occurrences above = ⟨above, n⟩ :: n.children.flatMap (occurrences (n :: above)) := by
  rw [occurrences]
  simp

theorem Occurrence.inView_below (c : Node) :
    inView skips ⟨n :: above, c⟩ = (!skips n && inView skips ⟨above, n⟩) := rfl

/-! ## Preorder -/

/-- Below a node that is out of view everything is. -/
theorem filter_occurrences_of_not_inView (h : Occurrence.inView skips ⟨above, n⟩ = false) :
    (n.occurrences above).filter (Occurrence.inView skips) = [] := by
  induction n using Node.induction generalizing above with
  | node n ih =>
    rw [occurrences_eq, List.filter_cons_of_neg (by simp [h]), List.filter_flatMap]
    refine List.flatMap_eq_nil_iff.mpr fun c hc => ih c hc ?_
    rw [Occurrence.inView_below, h, Bool.and_false]

/-- **The nodes that are entered are the tree in preorder,** without what is below nodes that are
passed over. -/
theorem filterMap_entered?_tour (h : Occurrence.inView skips ⟨above, n⟩ = true) :
    (n.tour skips).filterMap Visit.entered? =
      ((n.occurrences above).filter (Occurrence.inView skips)).map Occurrence.node := by
  induction n using Node.induction generalizing above with
  | node n ih =>
    rw [occurrences_eq, List.filter_cons_of_pos h, List.map_cons, List.filter_flatMap,
      List.map_flatMap]
    cases hskip : skips n with
    | true =>
      have hbelow : ∀ c ∈ n.children,
          ((c.occurrences (n :: above)).filter (Occurrence.inView skips)).map Occurrence.node =
            [] := by
        intro c _
        rw [filter_occurrences_of_not_inView (by rw [Occurrence.inView_below, hskip]; rfl)]
        rfl
      rw [tour_of_skip hskip, List.flatMap_eq_nil_iff.mpr hbelow]
      rfl
    | false =>
      have hbelow : ∀ c ∈ n.children, (c.tour skips).filterMap Visit.entered? =
          ((c.occurrences (n :: above)).filter (Occurrence.inView skips)).map Occurrence.node := by
        intro c hc
        exact ih c hc (by rw [Occurrence.inView_below, hskip, h]; rfl)
      rw [tour_of_not_skip hskip, List.filterMap_append, List.filterMap_cons,
        List.filterMap_flatMap, List.flatMap_congr hbelow]
      exact List.append_nil _

end Node

/-! ## Where a walk stops -/

namespace Trace

variable {visitor : Node → Decision ε}

/-- **What is seen up to the first node that stops the walk.** If there is none, all is seen;
otherwise nothing behind it, and its reason is what stopped the walk. -/
inductive IsCutOf (visitor : Node → Decision ε) (vs : List Visit) : Trace ε → Prop
  | whole : (∀ n, .enter n ∈ vs → ∀ reason, visitor n ≠ .stop reason) →
      IsCutOf visitor vs ⟨vs, none⟩
  | stopped {before after : List Visit} {n : Node} {reason : ε} : vs = before ++ .enter n :: after →
      (∀ m, .enter m ∈ before → ∀ reason, visitor m ≠ .stop reason) → visitor n = .stop reason →
      IsCutOf visitor vs ⟨before ++ [.enter n], some reason⟩

namespace IsCutOf

variable {vs ws : List Visit} {a b : Trace ε}

theorem enter {n : Node} (h : ∀ reason, visitor n ≠ .stop reason) :
    (one (.enter n)).IsCutOf visitor [.enter n] :=
  .whole fun _ hm => Visit.enter.inj (List.mem_singleton.mp hm) ▸ h

theorem append (ha : a.IsCutOf visitor vs) (hb : b.IsCutOf visitor ws) :
    (a ++ b).IsCutOf visitor (vs ++ ws) := by
  cases ha with
  | whole hvs =>
    cases hb with
    | whole hws =>
      exact .whole fun n hn => (List.mem_append.mp hn).elim (hvs n) (hws n)
    | @stopped before after n reason hws hbefore hn =>
      have hall : vs ++ ws = (vs ++ before) ++ .enter n :: after := by rw [hws, List.append_assoc]
      rw [going_append, ← List.append_assoc]
      exact .stopped hall (fun m hm => (List.mem_append.mp hm).elim (hvs m) (hbefore m)) hn
  | @stopped before after n reason hvs hbefore hn =>
    have hall : vs ++ ws = before ++ .enter n :: (after ++ ws) := by
      rw [hvs, List.append_assoc, List.cons_append]
    exact .stopped hall hbefore hn

theorem concat {α : Type} {f : α → List Visit} {g : α → Trace ε} {xs : List α}
    (h : ∀ x ∈ xs, (g x).IsCutOf visitor (f x)) :
    (Trace.concat (xs.map g)).IsCutOf visitor (xs.flatMap f) := by
  induction xs with
  | nil => exact .whole nofun
  | cons x xs ih =>
    obtain ⟨hx, hxs⟩ := List.forall_mem_cons.mp h
    exact hx.append (ih hxs)

end IsCutOf

/-- **The visits of a walk are well nested:** at no time have more nodes been left than were entered
to go on below them, and in the end all of these are left unless the walk is stopped. -/
structure Nested (visitor : Node → Decision ε) (t : Trace ε) : Prop where
  le : ∀ seen, seen <+: t.visits →
    seen.countP Visit.isLeave ≤ seen.countP (Visit.opens visitor)
  eq : t.failure = none → t.visits.countP Visit.isLeave = t.visits.countP (Visit.opens visitor)

namespace Nested

variable {a b : Trace ε}

/-- What leaves no node is well nested, if it opens none either or is stopped. -/
theorem of_enter {n : Node} {failure : Option ε}
    (h : failure = none → (visitor n).isEnter = false) :
    (⟨[.enter n], failure⟩ : Trace ε).Nested visitor where
  le seen hseen := by
    rcases List.prefix_cons_iff.mp hseen with rfl | ⟨more, rfl, hmore⟩
    · exact Nat.le_refl _
    · rw [List.prefix_nil.mp hmore]
      exact Nat.zero_le _
  eq hgoes := by simp [Visit.isLeave, Visit.opens, h hgoes]

theorem append (ha : a.Nested visitor) (hb : b.Nested visitor) : (a ++ b).Nested visitor := by
  obtain ⟨vs, failure⟩ := a
  cases failure with
  | some reason => exact ha
  | none =>
    have hvs : vs.countP Visit.isLeave = vs.countP (Visit.opens visitor) := ha.eq rfl
    refine ⟨fun seen hseen => ?_, fun hgoes => ?_⟩
    · rcases List.prefix_or_prefix_of_prefix hseen (List.prefix_append vs b.visits) with
        hearly | ⟨more, rfl⟩
      · exact ha.le seen hearly
      · have hmore := hb.le more ((List.prefix_append_right_inj vs).mp hseen)
        rw [List.countP_append, List.countP_append]
        omega
    · have hws := hb.eq hgoes
      rw [going_append, List.countP_append, List.countP_append]
      omega

theorem concat {ts : List (Trace ε)} (h : ∀ t ∈ ts, t.Nested visitor) :
    (Trace.concat ts).Nested visitor := by
  induction ts with
  | nil =>
    refine ⟨fun seen hseen => ?_, fun _ => rfl⟩
    rw [List.prefix_nil.mp hseen]
    exact Nat.le_refl _
  | cons t ts ih =>
    obtain ⟨ht, hts⟩ := List.forall_mem_cons.mp h
    exact ht.append (ih hts)

/-- A node that is gone into is left behind what is below it, unless the walk is stopped there. -/
theorem around {n : Node} (ha : a.Nested visitor) : (Trace.around visitor n a).Nested visitor := by
  unfold Trace.around
  cases hn : visitor n with
  | stop reason => exact .of_enter nofun
  | skip => exact .of_enter fun _ => by rw [hn]; rfl
  | enter =>
    have hleaves (seen : List Visit) :
        (.enter n :: seen).countP Visit.isLeave = seen.countP Visit.isLeave :=
      List.countP_cons_of_neg nofun
    have hopens (seen : List Visit) : (.enter n :: seen).countP (Visit.opens visitor) =
        seen.countP (Visit.opens visitor) + 1 :=
      List.countP_cons_of_pos (by rw [Visit.opens, hn]; rfl)
    obtain ⟨vs, failure⟩ := a
    have hbelow : ∀ seen, seen <+: .enter n :: vs →
        seen.countP Visit.isLeave ≤ seen.countP (Visit.opens visitor) := by
      intro seen hseen
      rcases List.prefix_cons_iff.mp hseen with rfl | ⟨more, rfl, hmore⟩
      · exact Nat.le_refl _
      · have hle := ha.le more hmore
        rw [hleaves, hopens]
        omega
    cases failure with
    | some reason => exact ⟨hbelow, nofun⟩
    | none =>
      have hall : (Visit.enter n :: vs ++ [Visit.leave]).countP Visit.isLeave =
          (Visit.enter n :: vs ++ [Visit.leave]).countP (Visit.opens visitor) := by
        have heq : vs.countP Visit.isLeave = vs.countP (Visit.opens visitor) := ha.eq rfl
        rw [List.countP_append, List.countP_append, hleaves, hopens, heq]
        rfl
      refine ⟨fun seen hseen => ?_, fun _ => hall⟩
      rcases List.prefix_concat_iff.mp hseen with rfl | hearly
      · exact Nat.le_of_eq hall
      · exact hbelow seen hearly

end Nested

end Trace

namespace Node

variable (visitor : Node → Decision ε)

/-- **A walk is cut off where it stops.** -/
theorem isCutOf_walk (n : Node) :
    (n.walk visitor).IsCutOf visitor (n.tour fun m => (visitor m).isSkip) := by
  induction n using Node.induction with
  | node n ih =>
    rw [walk_eq, Trace.around]
    cases hn : visitor n with
    | stop reason =>
      rw [tour_of_not_skip (by rw [hn]; rfl)]
      exact .stopped (show _ = [] ++ Visit.enter n :: _ from rfl) nofun hn
    | skip =>
      rw [tour_of_skip (by rw [hn]; rfl)]
      exact .enter (by rw [hn]; exact nofun)
    | enter =>
      rw [tour_of_not_skip (by rw [hn]; rfl)]
      have hnode : (Trace.one (.enter n)).IsCutOf visitor [.enter n] :=
        .enter (by rw [hn]; exact nofun)
      exact (hnode.append (.concat ih)).append (.whole nofun)

/-- **A walk is well nested.** -/
theorem nested_walk (n : Node) : (n.walk visitor).Nested visitor := by
  induction n using Node.induction with
  | node n ih =>
    rw [walk_eq]
    exact .around (.concat (List.forall_mem_map.mpr ih))

/-- **A walk is the preorder of its tree.** Take any visitor that passes over some nodes and stops
at some. What is seen is the tour of the tree, on which each node that is not passed over is
entered, its children are seen, and then it is left once; the nodes entered on the tour are those of
the tree in preorder, without all that is below nodes that are passed over. The tour is cut off
behind the first node that the visitor stops at, for the reason that it stops there. At no time have
more nodes been left than were gone into, and all of these are left in the end of a walk that is not
stopped. -/
theorem walk_preorder (n : Node) :
    let skips := fun m => (visitor m).isSkip
    (n.walk visitor).IsCutOf visitor (n.tour skips) ∧
      (n.tour skips).filterMap Visit.entered? =
        ((n.occurrences []).filter (Occurrence.inView skips)).map Occurrence.node ∧
      (n.walk visitor).Nested visitor :=
  ⟨isCutOf_walk visitor n, filterMap_entered?_tour rfl, nested_walk visitor n⟩

/-- A walk that passes over what is in parentheses and stops at one name: of the six nodes that it
goes into it has left three by then. -/
example : let visitor : Node → Decision String := fun
      | .expr (.paren _ _) => .skip
      | .expr (.var name _) => if name = "late" then .stop name else .enter
      | _ => .enter
    let text := "model pond \x7b level = (spring * 2) + drain; rest = late; \x7d"
    let t := (file (File.parse text)).walk visitor
    t.visits.length = 11 ∧ t.visits.countP Visit.isLeave = 3 ∧
      t.visits.countP (Visit.opens visitor) = 6 ∧ t.failure = some "late" := by
  decide +kernel

end Node

end StockFlow
