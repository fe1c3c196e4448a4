import StockFlow.Proofs.Grammar.Locality
import StockFlow.Token.Scan

/-!
# One bad statement does not spoil its neighbours

A body of statements is read as if each of them were alone: those that can be read are read, and for
each of the others there is the one error that it has by itself.

* `Group` — the tokens of one statement, good or bad, with their terminator
* `Group.alone` — what is read from a group by itself
* `Stream.body_groups` — a body of groups gives what each of them gives alone
-/

namespace StockFlow

/-- **The tokens of one statement,** good or bad, with the terminator behind them: brackets are
closed in turn, no terminator stands outside them, and no declaration starts. -/
structure Group where
  front : List Lexeme
  term : Lexeme
  nonempty : front ≠ []
  nested : Nested [] (front.map Lexeme.token)
  terminator : term.token = .terminator

namespace Group

def lexemes (g : Group) : List Lexeme := g.front ++ [g.term]

/-- What is read from a group by itself, behind `last` in a text that ends at `stop`. -/
def alone (g : Group) (last stop : Pos) : Except SyntaxError Stmt :=
  (Stream.mk g.lexemes last stop).statement.map Parsed.value

/-- The statement that a group is by itself. -/
def stmt? (g : Group) (last stop : Pos) : Option Stmt := (g.alone last stop).toOption

/-- What is wrong with a group by itself. -/
def fault? (g : Group) (last stop : Pos) : Option SyntaxError :=
  match g.alone last stop with
  | .ok _ => none
  | .error e => some e

/-- A group starts with a token that is no terminator and at which no body ends. -/
theorem exists_first (g : Group) : ∃ l more, g.front = l :: more ∧ l.token ≠ .terminator ∧
    Stream.endsBody l.token = false := by
  obtain ⟨l, more, hfront⟩ := List.exists_cons_of_ne_nil g.nonempty
  have hnested := g.nested
  rw [hfront, List.map_cons] at hnested
  obtain ⟨inside, hinside, -⟩ := nested_cons.mp hnested
  refine ⟨l, more, hfront, fun hl => ?_, ?_⟩
  · rw [hl] at hinside
    cases hinside
  · cases hl : l.token with
    | closing b =>
      rw [hl] at hinside
      cases hinside
    | keyword k =>
      cases hk : k.startsDeclaration with
      | false => exact hk
      | true =>
        rw [hl, Token.nest, if_pos hk] at hinside
        cases hinside
    | _ => rfl

end Group

namespace Stream

variable {g : Group} {x : Stream} {last : Pos}

/-- Where a statement is read from, nothing depends on where the token before it ends. -/
theorem statement_last (rest : List Lexeme) (last last' stop : Pos) :
    (Stream.mk rest last stop).statement = (Stream.mk rest last' stop).statement := by
  cases rest with
  | nil => rfl
  | cons l more =>
    obtain ⟨token, span⟩ := l
    cases token <;> rfl

/-- **A group gives what it gives alone,** whatever stands around it. -/
theorem statement_group (g : Group) (x : Stream) (last p q : Pos) :
    EndAlike { x with last := g.term.span.stop } ⟨[], g.term.span.stop, q⟩
      (Stream.mk (g.front ++ g.term :: x.rest) last x.stop).statement
      (Stream.mk g.lexemes p q).statement := by
  rw [statement_last g.lexemes p last q]
  exact alike_statement (.intro last g.terminator g.nested rfl rfl)

/-- A group that cannot be read is passed over, up to its terminator. -/
theorem skipStatement_group (g : Group) (x : Stream) (last : Pos) :
    (Stream.mk (g.front ++ g.term :: x.rest) last x.stop).skipStatement 0 =
      { x with last := g.term.span.stop } := by
  have h : Alike { x with last := g.term.span.stop } { x with last := g.term.span.stop } []
      (Stream.mk (g.front ++ g.term :: x.rest) last x.stop)
      (Stream.mk (g.front ++ g.term :: x.rest) last x.stop) :=
    .intro last g.terminator g.nested rfl rfl
  exact h.skipStatement

section

variable {s : Stream} {first : Parsed Lexeme s.size}
  (hdrop : s.dropTerminators = ⟨(), s, s.lt_succ⟩) (hnext : s.next? = some first)
include hdrop hnext

theorem body_of_brace (hbrace : first.value.token = .closing .brace) :
    s.body.stmts = [] ∧ s.body.errors = [] ∧ s.body.stop = some first.value.span.stop ∧
      s.body.stream = first.stream := by
  rw [body]
  generalize s.dropTerminators = skipped at hdrop ⊢
  subst hdrop
  simp only
  split
  · next hnone =>
    rw [hnext] at hnone
    cases hnone
  · next r hr =>
    obtain rfl := Option.some.inj (hr.symm.trans hnext)
    simp only [hbrace, ↓reduceIte, and_self]

/-- Where no body ends, a statement is read or passed over, and then the rest of the body is
read. -/
theorem body_of_statement (hends : endsBody first.value.token = false) :
    match s.statement with
    | .ok r => s.body.stmts = r.value :: r.stream.body.stmts ∧
      s.body.errors = r.stream.body.errors ∧ s.body.stop = r.stream.body.stop ∧
      s.body.stream = r.stream.body.stream
    | .error e => s.body.stmts = (s.skipStatement 0).body.stmts ∧
      s.body.errors = e :: (s.skipStatement 0).body.errors ∧
      s.body.stop = (s.skipStatement 0).body.stop ∧
      s.body.stream = (s.skipStatement 0).body.stream := by
  have hbrace : ¬first.value.token = .closing .brace := by
    intro hbrace
    rw [hbrace] at hends
    cases hends
  cases hstmt : s.statement with
  | ok _ | error _ =>
    simp only
    rw [body]
    generalize s.dropTerminators = skipped at hdrop ⊢
    subst hdrop
    simp only
    split
    · next hnone =>
      rw [hnext] at hnone
      cases hnone
    · next r hr =>
      obtain rfl := Option.some.inj (hr.symm.trans hnext)
      simp only [hbrace, hends, hstmt, Bool.false_eq_true, ↓reduceIte, ↓reduceDIte, and_self]

end

/-- **What a body gives that starts with a group:** what the group gives alone, and then what the
rest of the body gives. -/
theorem body_group (g : Group) (x : Stream) (last p q : Pos) :
    let behind : Stream := { x with last := g.term.span.stop }
    let r := (Stream.mk (g.front ++ g.term :: x.rest) last x.stop).body
    r.stmts = (g.stmt? p q).toList ++ behind.body.stmts ∧
      r.errors = (g.fault? p q).toList ++ behind.body.errors ∧
      r.stop = behind.body.stop ∧ r.stream = behind.body.stream := by
  intro behind r
  obtain ⟨l, more, hfront, hterm, hends⟩ := g.exists_first
  have hdrop : (Stream.mk (g.front ++ g.term :: x.rest) last x.stop).dropTerminators =
      ⟨(), Stream.mk (g.front ++ g.term :: x.rest) last x.stop, lt_succ _⟩ := by
    rw [hfront]
    exact dropTerminators_of_ne hterm
  have hnext : ∃ first, (Stream.mk (g.front ++ g.term :: x.rest) last x.stop).next? = some first ∧
      first.value = l := by
    rw [hfront]
    exact ⟨_, rfl, rfl⟩
  obtain ⟨first, hnext, rfl⟩ := hnext
  have hbody := body_of_statement hdrop hnext hends
  have halike := statement_group g x last p q
  rw [skipStatement_group g x last] at hbody
  unfold Group.stmt? Group.fault? Group.alone
  generalize (Stream.mk g.lexemes p q).statement = alone at halike ⊢
  generalize (Stream.mk (g.front ++ g.term :: x.rest) last x.stop).statement = among at halike hbody
  cases halike with
  | ok => exact hbody
  | error e => exact hbody

theorem body_groups_append (groups : List Group) (x : Stream) (last p q : Pos) : ∃ last' : Pos,
    let behind : Stream := { x with last := last' }
    let r := (Stream.mk (groups.flatMap Group.lexemes ++ x.rest) last x.stop).body
    r.stmts = groups.filterMap (Group.stmt? · p q) ++ behind.body.stmts ∧
      r.errors = groups.filterMap (Group.fault? · p q) ++ behind.body.errors ∧
      r.stop = behind.body.stop ∧ r.stream = behind.body.stream := by
  induction groups generalizing last with
  | nil => exact ⟨last, rfl, rfl, rfl, rfl⟩
  | cons g groups ih =>
    obtain ⟨last', hstmts, herrors, hstop, hstream⟩ := ih g.term.span.stop
    have hfirst := body_group g ⟨groups.flatMap Group.lexemes ++ x.rest, last, x.stop⟩ last p q
    have hsplit : (g :: groups).flatMap Group.lexemes ++ x.rest =
        g.front ++ g.term :: (groups.flatMap Group.lexemes ++ x.rest) := by
      simp only [List.flatMap_cons, Group.lexemes, List.append_assoc, List.cons_append,
        List.nil_append]
    have hcons : ∀ {β : Type} (f : Group → Option β),
        (g :: groups).filterMap f = (f g).toList ++ groups.filterMap f := by
      intro β f
      rw [List.filterMap_cons]
      cases f g <;> rfl
    refine ⟨last', ?_⟩
    rw [hsplit]
    simp only [hcons, List.append_assoc, ← hstmts, ← herrors, ← hstop, ← hstream]
    exact hfirst

/-- **One bad statement does not spoil its neighbours.** A body of groups gives the statements of
those that are statements by themselves, in order, and one error for each of the others, which is
the one that it has by itself, wherever it stands. It is read up to its closing brace. -/
theorem body_groups (groups : List Group) (brace : Span) (rest : List Lexeme)
    (last stop p q : Pos) :
    let r := (Stream.mk (groups.flatMap Group.lexemes ++ ⟨.closing .brace, brace⟩ :: rest) last
      stop).body
    r.stmts = groups.filterMap (Group.stmt? · p q) ∧
      r.errors = groups.filterMap (Group.fault? · p q) ∧
      r.stop = some brace.stop ∧ r.stream = ⟨rest, brace.stop, stop⟩ := by
  intro r
  obtain ⟨last', hstmts, herrors, hstop, hstream⟩ :=
    body_groups_append groups ⟨⟨.closing .brace, brace⟩ :: rest, last, stop⟩ last p q
  have hdrop : (Stream.mk (⟨.closing .brace, brace⟩ :: rest) last' stop).dropTerminators =
      ⟨(), Stream.mk (⟨.closing .brace, brace⟩ :: rest) last' stop, lt_succ _⟩ :=
    dropTerminators_of_ne (l := ⟨.closing .brace, brace⟩) nofun
  obtain ⟨hnone, hclean, hend, hleft⟩ := body_of_brace hdrop rfl rfl
  rw [hnone, List.append_nil] at hstmts
  rw [hclean, List.append_nil] at herrors
  exact ⟨hstmts, herrors, hstop.trans hend, hstream.trans hleft⟩

/-! ## A mixed body -/

/-- The groups of these sizes that some tokens start with, if they are groups, and the tokens behind
them. -/
def groupsOf? : List Nat → List Lexeme → Option (List Group × List Lexeme)
  | [], ls => some ([], ls)
  | size :: sizes, ls => do
    let term ← ls[size - 1]?
    let front := ls.take (size - 1)
    if h : front ≠ [] ∧ Nested [] (front.map Lexeme.token) ∧ term.token = .terminator then
      let (groups, rest) ← groupsOf? sizes (ls.drop size)
      return (⟨front, term, h.1, h.2.1, h.2.2⟩ :: groups, rest)
    else none

/-- Two bad statements and two good ones; one of each holds a terminator in brackets. -/
def mixed : String :=
  "a = 1 2; b = stock \x7binitial: 1; inflow: min(a, 2)\x7d; " ++
    "c = \x7binitial: [(0, 1), (;)]\x7d; d = 5; \x7d"

/-- The groups of the mixed body, its closing brace and what is behind it. -/
def mixedGroups : Option (List Group × Span × List Lexeme) := do
  let ls := (Scan.ofText mixed).lexemes
  let (groups, behind) ← groupsOf? [5, 18, 18, 4] ls
  let brace ← behind.head?
  let stmts := groups.filterMap (Group.stmt? · Pos.start Pos.start)
  let faults := groups.filterMap (Group.fault? · Pos.start Pos.start)
  if ls = groups.flatMap Group.lexemes ++ ⟨.closing .brace, brace.span⟩ :: behind.tail ∧
      groups.length = 4 ∧ stmts.map Stmt.name = ["b", "d"] ∧
      faults.map (fun e => e.pos.offset) = [6, 76] then
    return (groups, brace.span, behind.tail)
  else none

theorem body_groups_mixed : ∃ (groups : List Group) (brace : Span) (rest : List Lexeme),
    groups.length = 4 ∧
    (Scan.ofText mixed).lexemes =
      groups.flatMap Group.lexemes ++ ⟨.closing .brace, brace⟩ :: rest ∧
    let r := (Stream.mk (Scan.ofText mixed).lexemes Pos.start (Pos.ofEnd mixed)).body
    r.stmts.map Stmt.name = ["b", "d"] ∧ r.errors.map (fun e => e.pos.offset) = [6, 76] ∧
      r.stop = some brace.stop ∧ r.stream = ⟨rest, brace.stop, Pos.ofEnd mixed⟩ := by
  have hsome : mixedGroups.isSome = true := by decide +kernel
  obtain ⟨runs, hruns⟩ := Option.isSome_iff_exists.mp hsome
  obtain ⟨⟨groups, behind⟩, _, hruns⟩ := Option.bind_eq_some_iff.mp hruns
  obtain ⟨brace, _, hruns⟩ := Option.bind_eq_some_iff.mp hruns
  obtain ⟨⟨hlexemes, hlength, hnames, hoffsets⟩, _⟩ := Option.ite_none_right_eq_some.mp hruns
  obtain ⟨hstmts, herrors, hstop, hstream⟩ :=
    body_groups groups brace.span behind.tail Pos.start (Pos.ofEnd mixed) Pos.start Pos.start
  refine ⟨groups, brace.span, behind.tail, hlength, hlexemes, ?_⟩
  rw [hlexemes]
  exact ⟨by rw [hstmts]; exact hnames, by rw [herrors]; exact hoffsets, hstop, hstream⟩

end Stream

end StockFlow
