import Mathlib.Logic.Relation
import StockFlow.Proofs.Grammar.Shape
import StockFlow.Proofs.Model.References
import StockFlow.Proofs.Token.Layout

/-!
# Where trees stand

A tree stands from the start of its first token to the end of its last. Its children stand in it one
behind the other, as their tokens do.

* `Apart` — tokens of which each ends before the next one starts
* `Expr.Derives.spans` — a tree stands from its first token to its last
* `Expr.Derives.parts` — the children of a tree are derived from some of its tokens
* `Expr.Derives.nested` — the children of a tree stand in it, in order and without overlap
* `Expr.IsNodeOf.exists_derives` — every node of a tree is derived from tokens in a row
-/

namespace StockFlow

/-! ## From the first token to the last -/

/-- Tokens of which each ends before the next one starts. Only a terminator may have no length. -/
structure Apart (ls : List Lexeme) : Prop where
  pairwise : ls.Pairwise fun l m => l.span.start.offset < m.span.start.offset ∧
    l.span.stop.offset ≤ m.span.start.offset
  lt : ∀ l ∈ ls, l.token ≠ .terminator → l.span.start.offset < l.span.stop.offset

theorem Apart.sublist {ls ls' : List Lexeme} (h : Apart ls) (hls : ls'.Sublist ls) :
    Apart ls' :=
  ⟨h.pairwise.sublist hls, fun l hl => h.lt l (hls.subset hl)⟩

theorem Layout.apart {pos : Pos} {cs : List Char} {ls : List Lexeme} (h : Layout pos cs ls) :
    Apart ls := by
  refine ⟨h.ordered, ?_⟩
  induction h with
  | done => exact List.forall_mem_nil _
  | textEnd => exact List.forall_mem_singleton.mpr fun h => absurd rfl h
  | stretch hhere _ ih =>
    exact List.forall_mem_append.mpr ⟨fun l hl _ => (hhere.within hl).1, ih⟩

theorem Span.union_eq {a b : Span} (hstart : a.start.offset ≤ b.start.offset)
    (hstop : a.stop.offset < b.stop.offset) : a.union b = ⟨a.start, b.stop⟩ := by
  rw [union, if_pos hstart, if_neg (Nat.not_le_of_lt hstop)]

/-- The span reaches from the start of the first of some tokens to the end of the last, and neither
of these is a terminator. -/
structure Span.Spans (span : Span) (ls : List Lexeme) : Prop where
  first : ∃ l ∈ ls.head?, l.token ≠ .terminator ∧ l.span.start = span.start
  last : ∃ l ∈ ls.getLast?, l.token ≠ .terminator ∧ l.span.stop = span.stop

namespace Span.Spans

variable {a b : Span} {ls ls' : List Lexeme} {l : Lexeme}

theorem single {t : Token} (ht : t ≠ .terminator) : a.Spans [⟨t, a⟩] :=
  ⟨⟨_, rfl, ht, rfl⟩, ⟨_, rfl, ht, rfl⟩⟩

/-- What reaches from one token to another holds all tokens in between. -/
theorem holds (h : a.Spans ls) (hls : Apart ls) (hl : l ∈ ls) :
    a.start.offset ≤ l.span.start.offset ∧ l.span.stop.offset ≤ a.stop.offset := by
  obtain ⟨⟨first, hfirst, -, hstart⟩, ⟨last, hlast, hwritten, hstop⟩⟩ := h
  constructor
  · obtain ⟨more, rfl⟩ := List.head?_eq_some_iff.mp hfirst
    rw [← hstart]
    rcases List.mem_cons.mp hl with rfl | hl
    · exact Nat.le_refl _
    · exact Nat.le_of_lt (List.rel_of_pairwise_cons hls.pairwise hl).1
  · obtain ⟨more, rfl⟩ := List.getLast?_eq_some_iff.mp hlast
    rw [← hstop]
    rcases List.mem_append.mp hl with hl | hl
    · have hbefore := ((List.pairwise_append.mp hls.pairwise).2.2 l hl last
        (List.mem_singleton_self last)).2
      exact Nat.le_of_lt (Nat.lt_of_le_of_lt hbefore (hls.lt last (by simp) hwritten))
    · obtain rfl := List.mem_singleton.mp hl
      exact Nat.le_refl _

theorem lt (h : a.Spans ls) (hls : Apart ls) : a.start.offset < a.stop.offset := by
  obtain ⟨l, hl, hwritten, -⟩ := h.first
  have hmem := List.mem_of_mem_head? hl
  obtain ⟨hstart, hstop⟩ := h.holds hls hmem
  exact Nat.lt_of_le_of_lt hstart (Nat.lt_of_lt_of_le (hls.lt l hmem hwritten) hstop)

theorem append (h : a.Spans ls) (h' : b.Spans ls') (between : List Lexeme) :
    Span.Spans ⟨a.start, b.stop⟩ (ls ++ (between ++ ls')) := by
  obtain ⟨first, hfirst, hstart⟩ := h.first
  obtain ⟨last, hlast, hstop⟩ := h'.last
  refine ⟨⟨first, List.mem_head?_append_of_mem_head? hfirst, hstart⟩, ⟨last, ?_, hstop⟩⟩
  rw [← List.append_assoc]
  exact List.mem_getLast?_append_of_mem_getLast? hlast

/-- Where the tokens of one span end before those of another start, the spans unite to what reaches
from the first token to the last. -/
theorem union (h : a.Spans ls) (h' : b.Spans ls') (between : List Lexeme)
    (hls : Apart (ls ++ (between ++ ls'))) : (a.union b).Spans (ls ++ (between ++ ls')) := by
  obtain ⟨l, hl, -, hstart⟩ := h'.first
  obtain ⟨last, hlast, -, hstop⟩ := h.last
  have hmem := List.mem_of_mem_head? hl
  have hlater : l ∈ between ++ ls' := List.mem_append_right _ hmem
  have hright : Apart ls' := hls.sublist (List.sublist_append_of_sublist_right
    (List.sublist_append_right ..))
  have hbefore := ((List.pairwise_append.mp hls.pairwise).2.2 last
    (List.mem_of_mem_getLast? hlast) l hlater).2
  rw [Span.union_eq]
  · exact h.append h' between
  · rw [← hstart]
    exact ((h.append h' between).holds hls (List.mem_append_right _ hlater)).1
  · rw [← hstop]
    exact Nat.lt_of_le_of_lt hbefore (hstart ▸ h'.lt hright)

end Span.Spans

namespace Expr

variable {k : Level} {ls : List Lexeme} {e : Expr} {es : List Expr}

open Span.Spans in
/-- **A tree stands from the start of its first token to the end of its last.** -/
theorem Derives.spans (h : Derives k ls e) (hls : Apart ls) : e.span.Spans ls := by
  induction h with
  | bare _ ih | ofProduct _ ih | ofPower _ ih | ofNegation _ ih | ofLookup _ ih | ofValue _ ih =>
    exact ih hls
  | var | number | literal => exact .single nofun
  | units _ ih =>
    have hvalue := ih (hls.sublist (List.sublist_append_left ..))
    exact hvalue.union (single (by nofun)) [] hls
  | sum _ _ _ ih ih' | product _ _ _ ih ih' | power _ _ ih ih' =>
    have hleft := ih (hls.sublist (List.sublist_append_left ..))
    have hright := ih' (hls.sublist (List.sublist_append_of_sublist_right
      (List.sublist_cons_self ..)))
    exact hleft.union hright [_] hls
  | negate _ ih =>
    have hoperand := ih (hls.sublist (List.sublist_cons_self ..))
    exact append (single (by nofun)) hoperand []
  | index _ _ ih =>
    have htable := ih (hls.sublist (List.sublist_append_left ..))
    exact append htable (single (by nofun)) (_ :: _)
  | paren | composite | table => exact append (single (by nofun)) (single (by nofun)) _
  | typed | call => exact append (single (by nofun)) (single (by nofun)) (_ :: _)
  | keyed _ ih =>
    have hvalue := ih (hls.sublist ((List.suffix_cons ..).trans (List.suffix_cons ..)).sublist)
    exact union (single (by nofun)) hvalue [_] hls
  | @pair ls ls' _ _ left comma right =>
    have hpair := append (single (a := left) (t := .opening .round) nofun)
      (single (a := right) (t := .closing .round) nofun) (ls ++ ⟨.sign .comma, comma⟩ :: ls')
    rwa [List.append_assoc] at hpair

/-! ## Children -/

/-- Trees that are derived from some of the tokens, one behind the other. -/
inductive Parts : List Lexeme → List Expr → Prop
  | none {ls : List Lexeme} : Parts ls []
  | part {k : Level} {used ls : List Lexeme} {e : Expr} {es : List Expr} (before : List Lexeme) :
      Derives k used e → Parts ls es → Parts (before ++ (used ++ ls)) (e :: es)

namespace Parts

/-- More tokens may stand in front of the parts. -/
theorem prepend (before : List Lexeme) (h : Parts ls es) : Parts (before ++ ls) es := by
  cases h with
  | none => exact .none
  | part _ he hes =>
    rw [← List.append_assoc]
    exact .part _ he hes

/-- More tokens may stand behind the parts. -/
theorem append (h : Parts ls es) (after : List Lexeme) : Parts (ls ++ after) es := by
  induction h with
  | none => exact .none
  | part _ he _ ih =>
    rw [List.append_assoc, List.append_assoc]
    exact .part _ he ih

theorem single (he : Derives k ls e) (before after : List Lexeme) :
    Parts (before ++ (ls ++ after)) [e] :=
  .part before he .none

theorem last (he : Derives k ls e) (before : List Lexeme) : Parts (before ++ ls) [e] := by
  have h := single he before []
  rwa [List.append_nil] at h

theorem exists_derives (h : Parts ls es) :
    ∀ x ∈ es, ∃ k used, used <:+: ls ∧ Derives k used x := by
  induction h with
  | none => exact List.forall_mem_nil _
  | @part k used ls e es before he _ ih =>
    refine List.forall_mem_cons.mpr ⟨⟨k, used, ⟨before, ls, List.append_assoc ..⟩, he⟩, ?_⟩
    intro x hx
    obtain ⟨k', used', hused, hd⟩ := ih x hx
    exact ⟨k', used', hused.trans
      ((List.suffix_append used ls).trans (List.suffix_append before _)).isInfix, hd⟩

/-- Parts stand in order and without overlap. -/
theorem pairwise (h : Parts ls es) (hls : Apart ls) :
    es.Pairwise fun x y => x.span.stop.offset ≤ y.span.start.offset := by
  induction h with
  | none => exact .nil
  | @part k used ls e es before he hes ih =>
    have hrest := hls.sublist (List.sublist_append_right before _)
    have hused := hrest.sublist (List.sublist_append_left used ls)
    have hls := hrest.sublist (List.sublist_append_right used ls)
    refine List.pairwise_cons.mpr ⟨fun x hx => ?_, ih hls⟩
    obtain ⟨k', used', hwithin, hd⟩ := hes.exists_derives x hx
    obtain ⟨last, hlast, -, hstop⟩ := (he.spans hused).last
    obtain ⟨first, hfirst, -, hstart⟩ := (hd.spans (hls.sublist hwithin.sublist)).first
    rw [← hstop, ← hstart]
    exact ((List.pairwise_append.mp hrest.pairwise).2.2 last (List.mem_of_mem_getLast? hlast) first
      (hwithin.subset (List.mem_of_mem_head? hfirst))).2

end Parts

theorem Row.parts {ms : List Member} (h : Row ls ms)
    (hms : ∀ m ∈ ms, Derives k m.used m.tree) : Parts ls (ms.map Member.tree) := by
  induction h with
  | done => exact .none
  | member _ _ _ ih =>
    obtain ⟨hm, hms⟩ := List.forall_mem_cons.mp hms
    exact .part _ hm ((ih hms).prepend _)

theorem Arguments.parts {ms : List Member} (h : Arguments ls ms)
    (hms : ∀ m ∈ ms, Derives k m.used m.tree) : Parts ls (ms.map Member.tree) := by
  induction h with
  | none => exact .none
  | last m => exact .last (hms m (List.mem_singleton_self m)) []
  | comma _ ih =>
    obtain ⟨hm, hms⟩ := List.forall_mem_cons.mp hms
    exact .part [] hm ((ih hms).prepend [_])

/-- **The children of a tree are derived from some of its tokens,** one behind the other. -/
theorem Derives.parts (h : Derives k ls e) : Parts ls e.children := by
  induction h with
  | bare _ ih | ofProduct _ ih | ofPower _ ih | ofNegation _ ih | ofLookup _ ih | ofValue _ ih =>
    exact ih
  | var | number | literal => exact .none
  | units h => exact .part [] h (.last .literal [])
  | sum _ h h' | product _ h h' | power h h' => exact .part [] h (.last h' [_])
  | negate h => exact .last h [_]
  | index h h' => exact .part [] h (.single h' [_] [_])
  | paren h => exact .single h [_] [_]
  | composite hrow h | table hrow h => exact ((hrow.parts h).append [_]).prepend [_]
  | typed hrow h => exact ((hrow.parts h).append [_]).prepend [_, _]
  | call hrow h => exact ((hrow.parts h).append [_]).prepend [_, _]
  | keyed h => exact .last h [_, _]
  | pair h h' => exact .part [_] h (.single h' [_] [_])

/-- The children of a tree stand in it, in order and without overlap. -/
structure Nested (e : Expr) : Prop where
  inside : ∀ x ∈ e.children, e.span.start.offset ≤ x.span.start.offset ∧
    x.span.stop.offset ≤ e.span.stop.offset
  ordered : e.children.Pairwise fun x y => x.span.stop.offset ≤ y.span.start.offset

/-- **Children stand in their tree,** in order and without overlap. -/
theorem Derives.nested (h : Derives k ls e) (hls : Apart ls) : e.Nested := by
  refine ⟨fun x hx => ?_, h.parts.pairwise hls⟩
  obtain ⟨k, used, hused, hd⟩ := h.parts.exists_derives x hx
  have hspans := hd.spans (hls.sublist hused.sublist)
  obtain ⟨first, hfirst, -, hstart⟩ := hspans.first
  obtain ⟨last, hlast, -, hstop⟩ := hspans.last
  rw [← hstart, ← hstop]
  exact ⟨((h.spans hls).holds hls (hused.subset (List.mem_of_mem_head? hfirst))).1,
    ((h.spans hls).holds hls (hused.subset (List.mem_of_mem_getLast? hlast))).2⟩

/-! ## Nodes -/

/-- A tree, or one that stands anywhere below it. -/
def IsNodeOf (x e : Expr) : Prop := Relation.ReflTransGen (fun e x => x ∈ e.children) e x

/-- **Every node of a tree is derived from tokens that stand in a row among its own.** -/
theorem IsNodeOf.exists_derives {x : Expr} (hx : x.IsNodeOf e) (h : Derives k ls e) :
    ∃ k used, used <:+: ls ∧ Derives k used x := by
  induction hx with
  | refl => exact ⟨k, ls, List.infix_rfl, h⟩
  | tail _ hchild ih =>
    obtain ⟨k', used', hused', hd⟩ := ih
    obtain ⟨k, used, hused, hd⟩ := hd.parts.exists_derives _ hchild
    exact ⟨k, used, hused.trans hused', hd⟩

/-- A key with its value, or a point of a table. Neither stands anywhere but in a structured value
or in a table. -/
def isMember : Expr → Bool
  | keyed _ _ _ | pair _ _ _ => true
  | _ => false

/-- A tree that is no member of another one can be derived as an expression. -/
theorem Derives.annotated (h : Derives k ls e) (he : e.isMember = false) :
    Derives .annotated ls e := by
  cases k with
  | annotated => exact h
  | sum => exact .bare h
  | product => exact .bare (.ofProduct h)
  | power => exact .bare (.ofProduct (.ofPower h))
  | negation => exact .bare (.ofProduct (.ofPower (.ofNegation h)))
  | lookup => exact .bare (.ofProduct (.ofPower (.ofNegation (.ofLookup h))))
  | value => exact .bare (.ofProduct (.ofPower (.ofNegation (.ofLookup (.ofValue h)))))
  | element =>
    cases h with
    | keyed => cases he
  | point =>
    cases h with
    | pair => cases he

end Expr

end StockFlow
