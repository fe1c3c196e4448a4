import StockFlow.Proofs.Grammar.Printed
import StockFlow.Proofs.Token.Rescan

/-!
# The text of a tree is scanned back

The text of a tree is put together from pieces. Whatever stands behind a piece, it gives its tokens
as long as they end there, and the piece that comes next sees to that.

* `Scan.Writes` — a piece of text gives these tokens
* `Scan.writes_row` — the texts of some trees, with a comma between any two
* `Scan.writes_text` — the text of a tree gives the tokens of the tree
-/

namespace StockFlow

namespace Scan

/-- A token is what it is written as. -/
theorem writes_token {piece : List Char} {t : Token} (h : t.IsWritten piece)
    (hline : t = .terminator → piece ≠ ['\n']) : Writes piece [t] :=
  fun hlex _ _ hd hcs => scans_token h (hlex t (List.mem_singleton_self t)) hline hd hcs

theorem writes_identifier (name : String) : Writes name.toList [.identifier name] :=
  writes_token (t := .identifier name) rfl nofun

theorem writes_number (numeral : String) : Writes numeral.toList [.number numeral] :=
  writes_token (t := .number numeral) rfl nofun

theorem writes_literal (content : String) :
    Writes ('"' :: (content.toList ++ ['"'])) [.literal content] :=
  writes_token (t := .literal content) rfl nofun

namespace Writes

variable {c : Char} {piece piece' : List Char} {t : Token} {ts ts' : List Token}

theorem nil : Writes [] [] := fun _ _ _ _ h => h

theorem space (h : Writes piece ts) : Writes (' ' :: piece) ts :=
  fun hlex cs more hd hcs => scans_space (h hlex cs more hd hcs)

theorem char (hc : single? c = some t) (h : Writes piece ts) : Writes (c :: piece) (t :: ts) :=
  fun hlex cs more hd hcs =>
    scans_char hc (h (List.forall_mem_cons.mp hlex).2 cs more hd hcs)

/-- A piece may stand in front of one that starts with a character that delimits it. -/
theorem append (h : Writes piece ts) (hd : Delimited [c]) (h' : Writes (c :: piece') ts') :
    Writes (piece ++ c :: piece') (ts ++ ts') := by
  intro hlex cs more hcs hmore
  obtain ⟨hts, hts'⟩ := List.forall_mem_append.mp hlex
  rw [List.append_assoc, List.append_assoc]
  exact h hts _ _ (.cons (hd c rfl)) (h' hts' cs more hcs hmore)

/-- A piece may stand between brackets. -/
theorem enclosed {o : Char} {b : Bracket} (ho : single? o = some (.opening b))
    (hc : single? c = some (.closing b)) (hd : Delimited [c]) (h : Writes piece ts) :
    Writes (o :: (piece ++ [c])) (.opening b :: (ts ++ [.closing b])) :=
  char ho (h.append hd (char hc nil))

/-- An operator stands between spaces, so that no slash starts a comment. -/
theorem operator (op : BinaryOp) (h : Writes piece ts) :
    Writes (' ' :: (op.symbol.toList ++ ' ' :: piece)) (.sign op.sign :: ts) := by
  intro hlex cs more hd hcs
  have hmore := scans_space (h (List.forall_mem_cons.mp hlex).2 cs more hd hcs)
  refine scans_space ?_
  cases op with
  | div => exact (takes_slash fun c hc => by cases hc; decide).scans (hmore _)
  | add | sub | mul | pow => exact scans_char rfl hmore

end Writes

theorem writes_row {es : List Expr} (hes : ∀ e ∈ es, Writes e.text.toList e.tokens) :
    Writes (", ".intercalate (Expr.texts es)).toList (Expr.rowTokens es) := by
  induction es with
  | nil => exact .nil
  | cons e es ih =>
    obtain ⟨he, hes⟩ := List.forall_mem_cons.mp hes
    cases es with
    | nil =>
      rw [Expr.rowTokens, Expr.furtherTokens, List.append_nil, Expr.texts, Expr.texts,
        String.intercalate_singleton]
      exact he
    | cons e' es =>
      rw [Expr.rowTokens, Expr.texts, Expr.texts, String.intercalate_cons_cons,
        String.toList_append, String.toList_append, List.append_assoc]
      exact he.append (.cons (by decide)) (.char rfl (.space (ih hes)))

/-- **The text of a tree gives the tokens of the tree.** -/
theorem writes_text (e : Expr) : Writes e.text.toList e.tokens := by
  induction e using Expr.induction with
  | var name span => exact writes_identifier name
  | number numeral span => exact writes_number numeral
  | literal content span =>
    simp only [Expr.text, String.toList_append, List.append_assoc]
    exact writes_literal content
  | composite type elements span ih =>
    have hbody := (writes_row ih).enclosed (o := '\x7b') (c := '\x7d') rfl rfl (.cons (by decide))
    cases type with
    | none =>
      rw [Expr.tokens]
      simp only [Expr.text, String.toList_append, List.append_assoc]
      exact hbody
    | some type =>
      rw [Expr.tokens]
      simp only [Expr.text, String.toList_append, List.append_assoc]
      exact (writes_identifier type).append (.cons (by decide)) hbody.space
  | paren inner span ih =>
    rw [Expr.tokens]
    simp only [Expr.text, String.toList_append, List.append_assoc]
    exact ih.enclosed rfl rfl (.cons (by decide))
  | negate operand span ih =>
    rw [Expr.tokens]
    simp only [Expr.text, String.toList_append]
    exact ih.char rfl
  | binary op left right span ih ih' =>
    rw [Expr.tokens]
    simp only [Expr.text, String.toList_append, List.append_assoc]
    exact ih.append (.cons (by decide)) (.operator op ih')
  | keyed key value span ih =>
    rw [Expr.tokens]
    simp only [Expr.text, String.toList_append, List.append_assoc]
    exact (writes_identifier key).append (.cons (by decide)) (.char rfl ih.space)
  | pair x y span ih ih' =>
    rw [Expr.tokens]
    simp only [Expr.text, String.toList_append, List.append_assoc]
    have hrow := ih.append (.cons (by decide)) (.char (c := ',') rfl ih'.space)
    simpa using hrow.enclosed rfl rfl (.cons (by decide))
  | table points span ih =>
    rw [Expr.tokens]
    simp only [Expr.text, String.toList_append, List.append_assoc]
    exact (writes_row ih).enclosed rfl rfl (.cons (by decide))
  | units value note span ih ih' =>
    rw [Expr.tokens]
    simp only [Expr.text, String.toList_append, List.append_assoc]
    exact ih.append (.cons (by decide)) ih'.space
  | index t i span ih ih' =>
    rw [Expr.tokens]
    simp only [Expr.text, String.toList_append, List.append_assoc]
    exact ih.append (.cons (by decide)) (ih'.enclosed rfl rfl (.cons (by decide)))
  | call function args span ih =>
    rw [Expr.tokens]
    simp only [Expr.text, String.toList_append, List.append_assoc]
    exact (writes_identifier function).append (.cons (by decide))
      ((writes_row ih).enclosed rfl rfl (.cons (by decide)))

end Scan

end StockFlow
