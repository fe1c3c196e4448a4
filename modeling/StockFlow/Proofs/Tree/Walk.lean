import StockFlow.Tree.Walk

/-!
# A walk by the walks of its parts

* `Node.children` — the nodes directly below a node
* `Expr.children_induction`, `Node.induction` — what holds of a node if it holds of its children,
  holds of all
* `Node.walkWith_eq` — the walk of a node goes around the walks of its children
* `Node.walk_eq` — so does what a visitor sees that decides by the node
-/

namespace StockFlow

/-! ## The tree below a node -/

/-- The expressions directly below an expression. -/
def Expr.children : Expr → List Expr
  | .var _ _ | .number _ _ | .literal _ _ => []
  | .composite _ es _ | .table es _ | .call _ es _ => es
  | .paren x _ | .negate x _ | .keyed _ x _ => [x]
  | .binary _ l r _ | .pair l r _ | .units l r _ | .index l r _ => [l, r]

/-- The expressions directly below an expression are smaller. -/
theorem Expr.sizeOf_lt_of_mem_children {e c : Expr} (h : c ∈ e.children) :
    sizeOf c < sizeOf e := by
  cases e with
  | var | number | literal => cases h
  | composite _ es _ | table es _ | call _ es _ =>
    have hlt : sizeOf c < sizeOf es := List.sizeOf_lt_of_mem h
    simp
    omega
  | paren x _ | negate x _ | keyed _ x _ =>
    obtain rfl := List.mem_singleton.mp h
    simp
    omega
  | binary _ l r _ | pair l r _ | units l r _ | index l r _ =>
    simp only [Expr.children, List.mem_cons, List.not_mem_nil, or_false] at h
    rcases h with rfl | rfl <;>
    · simp
      omega

/-- **Induction over an expression:** what holds of an expression if it holds of those below it,
holds of all. -/
theorem Expr.children_induction {P : Expr → Prop}
    (node : ∀ e : Expr, (∀ c ∈ e.children, P c) → P e) (e : Expr) : P e :=
  node e fun c _hc => children_induction node c
termination_by e
decreasing_by exact sizeOf_lt_of_mem_children _hc

namespace Node

/-- **The nodes directly below a node,** in the order in which they are written. -/
def children : Node → List Node
  | file f => f.decls.map decl
  | decl (.model m) | decl (.interface m) => m.units.toList.map expr ++ m.body.stmts.map stmt
  | decl (.kind k) => k.units.toList.map expr
  | stmt s => s.decl.units.toList.map expr ++ s.value.toList.map expr
  | expr e => e.children.map expr

/-- The nodes directly below a node are smaller. -/
theorem sizeOf_lt_of_mem_children {n c : Node} (h : c ∈ n.children) : sizeOf c < sizeOf n := by
  have hsome : ∀ {o : Option Expr} {e : Expr}, e ∈ o.toList → sizeOf e < sizeOf o := by
    intro o e he
    obtain rfl := Option.mem_toList.mp he
    simp
  cases n with
  | file f =>
    obtain ⟨d, hd, rfl⟩ := List.mem_map.mp h
    have hlt := List.sizeOf_lt_of_mem hd
    obtain ⟨package, imports, decls, errors⟩ := f
    simp at hlt ⊢
    omega
  | decl d =>
    cases d with
    | model m | interface m =>
      obtain ⟨name, parent, units, ⟨stmts, span⟩, span'⟩ := m
      rcases List.mem_append.mp h with h | h
      · obtain ⟨e, he, rfl⟩ := List.mem_map.mp h
        have hlt := hsome he
        simp at hlt ⊢
        omega
      · obtain ⟨s, hs, rfl⟩ := List.mem_map.mp h
        have hlt := List.sizeOf_lt_of_mem hs
        simp at hlt ⊢
        omega
    | kind k =>
      obtain ⟨name, units, span⟩ := k
      obtain ⟨e, he, rfl⟩ := List.mem_map.mp h
      have hlt := hsome he
      simp at hlt ⊢
      omega
  | stmt s =>
    obtain ⟨⟨name, kind, units, span⟩, value⟩ := s
    rcases List.mem_append.mp h with h | h <;>
    · obtain ⟨e, he, rfl⟩ := List.mem_map.mp h
      have hlt := hsome he
      simp at hlt ⊢
      omega
  | expr e =>
    obtain ⟨x, hx, rfl⟩ := List.mem_map.mp h
    have hlt := Expr.sizeOf_lt_of_mem_children hx
    simp
    omega

/-- **Induction over a tree:** what holds of a node if it holds of its children, holds of all. -/
theorem induction {P : Node → Prop} (node : ∀ n : Node, (∀ c ∈ n.children, P c) → P n) (n : Node) :
    P n :=
  node n fun c _hc => induction node c
termination_by n
decreasing_by exact sizeOf_lt_of_mem_children _hc

end Node

/-! ## Walks with any visitor -/

section

variable {m : Type → Type} [Monad m] (visit : Visit → m Bool)

theorem Expr.walkAllWith_eq (es : List Expr) :
    walkAllWith visit es = forM es (Expr.walkWith visit) := by
  induction es with
  | nil => rw [walkAllWith]; rfl
  | cons e es ih => rw [walkAllWith, ih]; rfl

variable [LawfulMonad m]

theorem Expr.walkIfWith_eq (o : Option Expr) :
    walkIfWith visit o = forM o.toList (Expr.walkWith visit) := by
  cases o with
  | none => rfl
  | some e => exact bind_pure_unit.symm

/-- **The walk of a node** goes around the walks of its children. -/
theorem Node.walkWith_eq (n : Node) :
    n.walkWith visit = around visit n (forM n.children (walkWith visit)) := by
  cases n with
  | file f => rw [children, List.forM_map]; rfl
  | decl d =>
    cases d with
    | model m | interface m =>
      rw [walkWith, Decl.walkWith, children, List.forM_append, List.forM_map, List.forM_map,
        Expr.walkIfWith_eq]
      rfl
    | kind k =>
      rw [walkWith, Decl.walkWith, children, List.forM_map, Expr.walkIfWith_eq]
      rfl
  | stmt s =>
    rw [walkWith, Stmt.walkWith, children, List.forM_append, List.forM_map, List.forM_map,
      Expr.walkIfWith_eq, Expr.walkIfWith_eq]
    rfl
  | expr e =>
    rw [walkWith, children, List.forM_map]
    show e.walkWith visit = around visit (.expr e) (forM e.children (Expr.walkWith visit))
    cases e with
    | var | number | literal => rw [Expr.walkWith]; rfl
    | composite _ es _ | table es _ | call _ es _ =>
      rw [Expr.walkWith, Expr.walkAllWith_eq]
      rfl
    | paren x _ | negate x _ | keyed _ x _ =>
      rw [Expr.walkWith, Expr.children, List.forM_cons, List.forM_nil, bind_pure_unit]
    | binary _ l r _ | pair l r _ | units l r _ | index l r _ =>
      rw [Expr.walkWith, Expr.children, List.forM_cons, List.forM_cons, List.forM_nil,
        bind_pure_unit]

end

/-! ## Traces one after the other -/

variable {ε : Type}

namespace Trace

/-- A walk without visits. -/
def empty : Trace ε := ⟨[], none⟩

/-- A walk of one visit. -/
def one (v : Visit) : Trace ε := ⟨[v], none⟩

/-- One walk and then another, which only takes place if the first was not stopped. -/
def append (a b : Trace ε) : Trace ε :=
  match a.failure with
  | some _ => a
  | none => ⟨a.visits ++ b.visits, b.failure⟩

instance : Append (Trace ε) := ⟨append⟩

/-- Walks one after the other. -/
def concat (ts : List (Trace ε)) : Trace ε := ts.foldr append empty

/-- A node with the walk of what is below it. -/
def around (visitor : Node → Decision ε) (n : Node) (below : Trace ε) : Trace ε :=
  match visitor n with
  | .stop reason => ⟨[.enter n], some reason⟩
  | .skip => one (.enter n)
  | .enter => one (.enter n) ++ below ++ one .leave

@[simp] theorem going_append (vs : List Visit) (b : Trace ε) :
    (⟨vs, none⟩ : Trace ε) ++ b = ⟨vs ++ b.visits, b.failure⟩ := rfl

/-- The answer of a walk: what stopped it, if anything did. -/
def answer (t : Trace ε) : Except ε Unit :=
  match t.failure with
  | none => .ok ()
  | some reason => .error reason

/-- **A walk leaves a trace:** it answers so, and adds its visits to those seen before. -/
def IsOf (t : Trace ε) (x : ExceptT ε (StateM (List Visit)) Unit) : Prop :=
  ∀ seen, x.run.run seen = (t.answer, t.visits.reverse ++ seen)

namespace IsOf

variable {t u : Trace ε} {x y : ExceptT ε (StateM (List Visit)) Unit}

theorem append (ht : t.IsOf x) (hu : u.IsOf y) : (t ++ u).IsOf (x >>= fun _ => y) := by
  intro seen
  obtain ⟨vs, failure⟩ := t
  show (let r := x.run.run seen; (ExceptT.bindCont (fun _ => y) r.1).run r.2) = _
  rw [ht seen]
  cases failure with
  | some reason => rfl
  | none =>
    show y.run.run (vs.reverse ++ seen) = _
    rw [hu, going_append, List.reverse_append, List.append_assoc]
    rfl

theorem forM {α : Type} {f : α → ExceptT ε (StateM (List Visit)) Unit} {g : α → Trace ε}
    {xs : List α} (h : ∀ a ∈ xs, (g a).IsOf (f a)) : (concat (xs.map g)).IsOf (forM xs f) := by
  induction xs with
  | nil => exact fun _ => rfl
  | cons a xs ih =>
    obtain ⟨ha, hrest⟩ := List.forall_mem_cons.mp h
    exact ha.append (ih hrest)

/-- A node is entered, and if it is gone into it is left behind what is below it. -/
theorem around {visitor : Node → Decision ε} {n : Node} (ht : t.IsOf x) :
    (Trace.around visitor n t).IsOf (Node.around (Decision.visit visitor) n x) := by
  unfold Trace.around
  cases hn : visitor n with
  | stop reason =>
    intro seen
    simp only [Node.around, Decision.visit, hn]
    rfl
  | skip =>
    intro seen
    simp only [Node.around, Decision.visit, hn]
    rfl
  | enter =>
    have henter : (one (.enter n) : Trace ε).IsOf (modify (.enter n :: ·)) := fun _ => rfl
    have hleave : (one .leave : Trace ε).IsOf (modify (.leave :: ·)) := fun _ => rfl
    intro seen
    rw [← (henter.append ht).append hleave seen]
    simp only [Node.around, Decision.visit, hn]
    rfl

end IsOf

end Trace

namespace Node

variable {visitor : Node → Decision ε}

theorem walk_of_isOf {t : Trace ε} {n : Node} (h : t.IsOf (n.walkWith (Decision.visit visitor))) :
    n.walk visitor = t := by
  obtain ⟨vs, failure⟩ := t
  rw [walk, h []]
  cases failure <;> simp [Trace.answer]

theorem walk_isOf (n : Node) : (n.walk visitor).IsOf (n.walkWith (Decision.visit visitor)) := by
  induction n using Node.induction with
  | node n ih =>
    have h : Trace.IsOf _ (around (Decision.visit visitor) n _) := .around (.forM ih)
    rw [← walkWith_eq] at h
    rwa [walk_of_isOf h]

/-- **What is seen of a node** goes around what is seen of its children. -/
theorem walk_eq (visitor : Node → Decision ε) (n : Node) :
    n.walk visitor = Trace.around visitor n (Trace.concat (n.children.map (walk visitor))) := by
  refine walk_of_isOf ?_
  rw [walkWith_eq]
  exact .around (.forM fun c _ => walk_isOf c)

end Node

end StockFlow
