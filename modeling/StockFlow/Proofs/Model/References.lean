import StockFlow.Model.Scope
import StockFlow.Proofs.Tree.Walk

/-!
# The names that stand in a statement

A name stands in an expression if some node of it is that name, however deep. A walk that looks
names up meets them in the order in which they stand, and stops at the first that is not known.

* `Expr.Mentions`, `Stmt.Mentions` — a name stands in an expression or a statement
* `Expr.references`, `Stmt.references` — the names that stand in one, in order
* `NameWalk.walkWith_expr`, `NameWalk.walkWith_stmt` — what a walk looks up, and where it ends
* `Definition.scope_eq` — the scope of a model, by the references of its statements
-/

namespace StockFlow

variable {name : String}

/-! ## Occurrence -/

/-- **A name stands in an expression,** as the expression itself or anywhere below it. -/
inductive Expr.Mentions (name : String) : Expr → Prop
  | here (span : Span) : Mentions name (.var name span)
  | inside {e child : Expr} (hchild : child ∈ e.children) (h : Mentions name child) :
    Mentions name e

/-- A name stands in the units or in the value of a statement. -/
def Stmt.Mentions (name : String) (s : Stmt) : Prop :=
  (∃ u, s.decl.units = some u ∧ u.Mentions name) ∨ ∃ v, s.value = some v ∧ v.Mentions name

theorem Expr.mentions_iff_self_or {e : Expr} : e.Mentions name ↔
    (∃ span, e = .var name span) ∨ ∃ child ∈ e.children, child.Mentions name := by
  constructor
  · intro h
    cases h with
    | here span => exact Or.inl ⟨span, rfl⟩
    | inside hchild hinside => exact Or.inr ⟨_, hchild, hinside⟩
  · rintro (⟨span, rfl⟩ | ⟨child, hchild, hinside⟩)
    · exact .here span
    · exact .inside hchild hinside

/-! ## References -/

mutual

/-- The names that an expression refers to, in order, and where. -/
def Expr.references : Expr → List (String × Span)
  | .var name span => [(name, span)]
  | .number _ _ | .literal _ _ => []
  | .composite _ es _ | .table es _ | .call _ es _ => Expr.referencesAll es
  | .paren x _ | .negate x _ | .keyed _ x _ => x.references
  | .binary _ l r _ | .pair l r _ | .units l r _ | .index l r _ => l.references ++ r.references

/-- The names that some expressions refer to, in order, and where. -/
def Expr.referencesAll : List Expr → List (String × Span)
  | [] => []
  | e :: es => e.references ++ Expr.referencesAll es

end

/-- The names that a statement refers to: in its units, then in its value. -/
def Stmt.references (s : Stmt) : List (String × Span) :=
  s.decl.units.toList.flatMap Expr.references ++ s.value.toList.flatMap Expr.references

theorem Expr.referencesAll_eq (es : List Expr) : referencesAll es = es.flatMap references := by
  induction es with
  | nil => rfl
  | cons e es ih => rw [referencesAll, ih, List.flatMap_cons]

/-- An expression that is no name refers to what those below it refer to. -/
theorem Expr.references_eq {e : Expr} (h : ∀ name span, e ≠ .var name span) :
    e.references = e.children.flatMap references := by
  cases e with
  | var name span => exact absurd rfl (h name span)
  | number | literal => rw [references]; rfl
  | composite _ es _ | table es _ | call _ es _ => rw [references, referencesAll_eq]; rfl
  | paren x _ | negate x _ | keyed _ x _ => rw [references, children, List.flatMap_singleton]
  | binary _ l r _ | pair l r _ | units l r _ | index l r _ =>
    rw [references, children, List.flatMap_cons, List.flatMap_singleton]

/-- **The references of an expression are the names that stand in it.** -/
theorem Expr.mentions_iff (e : Expr) : e.Mentions name ↔ name ∈ e.references.map Prod.fst := by
  induction e using Expr.children_induction with
  | node e ih =>
    rw [mentions_iff_self_or]
    by_cases hvar : ∃ n span, e = .var n span
    · obtain ⟨n, span, rfl⟩ := hvar
      rw [references]
      simp [children, eq_comm]
    · have hne : ∀ n span, e ≠ .var n span := fun n span he => hvar ⟨n, span, he⟩
      have hbelow : (∃ c ∈ e.children, c.Mentions name) ↔
          ∃ c ∈ e.children, name ∈ c.references.map Prod.fst :=
        exists_congr fun c => and_congr_right fun hc => ih c hc
      rw [references_eq hne, hbelow, List.map_flatMap, List.mem_flatMap]
      refine or_iff_right ?_
      rintro ⟨span, he⟩
      exact hne name span he

theorem Stmt.mentions_iff (s : Stmt) : s.Mentions name ↔ name ∈ s.references.map Prod.fst := by
  have hpart : ∀ part : Option Expr, (∃ e, part = some e ∧ e.Mentions name) ↔
      name ∈ (part.toList.flatMap Expr.references).map Prod.fst := by
    intro part
    cases part with
    | none => simp
    | some e => simp [e.mentions_iff]
  rw [Mentions, references, List.map_append, List.mem_append, ← hpart, ← hpart]

/-! ## Names that are looked up -/

namespace Scope

variable {scope : Scope} {model owner : String}

/-- Refuses the references of a variable at the first that is not known. -/
def check (scope : Scope) (model owner : String) (refs : List (String × Span)) :
    Except ModelFault Unit :=
  match refs.find? fun r => !scope.knows r.1 with
  | some (name, span) => .error (.atVariable model owner (.unknownVariable name span))
  | none => .ok ()

theorem check_append (xs ys : List (String × Span)) :
    scope.check model owner (xs ++ ys) =
      (do scope.check model owner xs; scope.check model owner ys) := by
  rw [check, check, List.find?_append]
  cases xs.find? fun r => !scope.knows r.1 <;> rfl

theorem check_singleton (name : String) (span : Span) :
    scope.check model owner [(name, span)] =
      if scope.knows name then .ok ()
      else .error (.atVariable model owner (.unknownVariable name span)) := by
  rw [check, List.find?_singleton]
  cases scope.knows name <;> rfl

/-- References are accepted if all of them are known. -/
theorem check_eq_ok {refs : List (String × Span)} :
    scope.check model owner refs = .ok () ↔ ∀ r ∈ refs, scope.knows r.1 = true := by
  have hnone : (refs.find? fun r => !scope.knows r.1) = none ↔
      ∀ r ∈ refs, scope.knows r.1 = true := by
    simp only [List.find?_eq_none, Bool.not_eq_true, Bool.not_eq_false']
  rw [← hnone, check]
  cases refs.find? fun r => !scope.knows r.1 with
  | some r => exact iff_of_false nofun nofun
  | none => exact iff_of_true rfl rfl

end Scope

/-! ## Walks that look names up -/

namespace NameWalk

variable {model : String} {scope : Scope} {w : NameWalk}

/-- An expression that is no name is gone into. -/
theorem see_enter {e : Expr} (h : ∀ name span, e ≠ .var name span) :
    see model scope (.enter (.expr e)) w = .ok (true, { w with depth := w.depth + 1 }) := by
  cases e with
  | var name span => exact absurd rfl (h name span)
  | _ => rfl

/-- A name is gone into if it is known, and stops the walk if not. -/
theorem see_enter_var (n : String) (span : Span) :
    see model scope (.enter (.expr (.var n span))) w =
      if scope.knows n then .ok (true, { w with depth := w.depth + 1 })
      else .error (.atVariable model (w.current.getD "?") (.unknownVariable n span)) := by
  cases hknows : scope.knows n <;>
  · simp only [see, hknows]
    rfl

/-- Leaving a node that is not the outermost leads back to where the walk was. -/
theorem see_leave (h : 0 < w.depth) :
    see model scope .leave { w with depth := w.depth + 1 } = .ok (true, w) := by
  obtain ⟨current, depth⟩ := w
  obtain ⟨k, rfl⟩ := Nat.exists_eq_add_of_lt h
  rfl

/-- **A node that is gone into:** the walk goes on below it one level deeper, and then leaves it. -/
theorem around_eq {n : Node} {below : StateT NameWalk (Except ModelFault) Unit} {inner : NameWalk}
    (h : see model scope (.enter n) w = .ok (true, inner)) :
    Node.around (see model scope) n below w = do
      let (_, deep) ← below inner
      let (_, left) ← see model scope .leave deep
      return ((), left) := by
  show (see model scope (.enter n) w >>= fun r => (if r.1 then _ else _ : StateT _ _ _) r.2) = _
  rw [h]
  rfl

/-- Within a statement the walk comes back from a node to where it was, if it does so from what is
below the node. -/
theorem around_eq_of_below {n : Node} {below : StateT NameWalk (Except ModelFault) Unit}
    {answer : Except ModelFault Unit} (h : 0 < w.depth)
    (henter : see model scope (.enter n) w = .ok (true, { w with depth := w.depth + 1 }))
    (hbelow : below { w with depth := w.depth + 1 } = do
      answer
      return ((), { w with depth := w.depth + 1 })) :
    Node.around (see model scope) n below w = do
      answer
      return ((), w) := by
  rw [around_eq henter, hbelow]
  cases answer with
  | error fault => rfl
  | ok =>
    show (see model scope .leave _ >>= _) = _
    rw [see_leave h]
    rfl

/-- What expressions refer to is looked up from one to the next. -/
theorem forM_walkWith {es : List Expr} {owner : String}
    (h : ∀ e ∈ es, (Node.expr e).walkWith (see model scope) w = do
      scope.check model owner e.references
      return ((), w)) :
    forM (es.map Node.expr) (Node.walkWith (see model scope)) w = do
      scope.check model owner (es.flatMap Expr.references)
      return ((), w) := by
  induction es with
  | nil => rfl
  | cons e es ih =>
    obtain ⟨hfirst, hrest⟩ := List.forall_mem_cons.mp h
    show ((Node.expr e).walkWith (see model scope) w >>= fun r =>
      forM (es.map Node.expr) (Node.walkWith (see model scope)) r.2) = _
    rw [hfirst, List.flatMap_cons, Scope.check_append]
    cases scope.check model owner e.references with
    | error fault => rfl
    | ok => exact ih hrest

/-- **The walk of an expression** within a statement looks up what the expression refers to. -/
theorem walkWith_expr (e : Expr) (h : 0 < w.depth) :
    (Node.expr e).walkWith (see model scope) w = do
      scope.check model (w.current.getD "?") e.references
      return ((), w) := by
  induction e using Expr.children_induction generalizing w with
  | node e ih =>
    rw [Node.walkWith_eq, Node.children]
    by_cases hvar : ∃ n span, e = .var n span
    · obtain ⟨n, span, rfl⟩ := hvar
      rw [Expr.references, Scope.check_singleton]
      have hsee : see model scope (.enter (.expr (.var n span))) w = _ := see_enter_var n span
      cases hknows : scope.knows n with
      | false =>
        rw [hknows] at hsee
        show (see model scope (.enter _) w >>= _) = _
        rw [hsee]
        rfl
      | true =>
        rw [hknows] at hsee
        exact around_eq_of_below h hsee rfl
    · have hne : ∀ n span, e ≠ .var n span := fun n span he => hvar ⟨n, span, he⟩
      rw [Expr.references_eq hne]
      exact around_eq_of_below h (see_enter hne)
        (forM_walkWith fun c hc => ih c hc (Nat.succ_pos _))

/-- **The walk of a statement** looks up what the statement refers to, and ends outside again. -/
theorem walkWith_stmt (s : Stmt) :
    s.walkWith (see model scope) outside = do
      scope.check model s.name s.references
      return ((), outside) := by
  have hbelow : forM (Node.children (.stmt s)) (Node.walkWith (see model scope)) ⟨some s.name, 1⟩ =
      do
        scope.check model s.name s.references
        return ((), ⟨some s.name, 1⟩) := by
    rw [Node.children, ← List.map_append, Stmt.references, ← List.flatMap_append]
    exact forM_walkWith fun e _ => walkWith_expr e Nat.one_pos
  have henter : see model scope (.enter (.stmt s)) outside = .ok (true, ⟨some s.name, 1⟩) := rfl
  show (Node.stmt s).walkWith (see model scope) outside = _
  rw [Node.walkWith_eq, around_eq henter, hbelow]
  cases scope.check model s.name s.references <;> rfl

/-- Statements are looked through one after the other. -/
theorem forM_walkWith_stmt (stmts : List Stmt) :
    stmts.forM (Stmt.walkWith (see model scope)) outside = do
      stmts.forM fun s => scope.check model s.name s.references
      return ((), outside) := by
  induction stmts with
  | nil => rfl
  | cons s stmts ih =>
    show (s.walkWith (see model scope) outside >>= fun r =>
      stmts.forM (Stmt.walkWith (see model scope)) r.2) =
        ((scope.check model s.name s.references >>= fun _ =>
          stmts.forM fun s => scope.check model s.name s.references) >>= _)
    rw [walkWith_stmt]
    cases scope.check model s.name s.references with
    | error fault => rfl
    | ok => exact ih

end NameWalk

/-- **The scope of a model,** by the references of its statements. -/
theorem Definition.scope_eq (d : Definition) :
    d.scope = do
      let vars ← declare d.name [] d.varStmts
      let scope : Scope := ⟨vars, d.varStmts.any fun s => s.value.isNone⟩
      d.varStmts.forM fun s => scope.check d.name s.name s.references
      return scope := by
  rw [scope]
  cases declare d.name [] d.varStmts with
  | error fault => rfl
  | ok vars =>
    let scope : Scope := ⟨vars, d.varStmts.any fun s => s.value.isNone⟩
    show (d.varStmts.forM (Stmt.walkWith (NameWalk.see d.name scope)) .outside >>= _) = _
    rw [NameWalk.forM_walkWith_stmt]
    show _ = ((d.varStmts.forM fun s => scope.check d.name s.name s.references) >>= _)
    cases d.varStmts.forM fun s => scope.check d.name s.name s.references <;> rfl

end StockFlow
