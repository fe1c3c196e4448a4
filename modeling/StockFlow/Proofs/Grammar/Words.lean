import StockFlow.Grammar.Outline
import StockFlow.Proofs.Answer
import StockFlow.Proofs.Grammar.Shape
import StockFlow.Proofs.Token.Layout

/-!
# Trees read as words

A tree is read in order, word by word. Words are the tokens a tree stands for, with three places
where it does not say how they were written: a kind may be a name or stand in backticks, units may
stand in quotes or in backticks, and a comma behind an element may be there or not.

* `File.words` — a file as words
* `Spells` — words written as tokens, with terminators between them
* `Stream.Reads` — what was read between two streams is written in these words
-/

namespace StockFlow

/-- A part of a tree as it is read out. -/
inductive Word where
  | token (t : Token)
  /-- The kind of a variable, as a name or in backticks. -/
  | kind (name : String)
  /-- The units of a model or a kind, in quotes or in backticks. -/
  | units (content : String)
  /-- The end of an element of a structured value or of a point of a table: a comma or nothing. -/
  | separator
  deriving DecidableEq, Repr

namespace Word

/-- The tokens that a word may be written as. -/
def IsWritten : Word → List Token → Prop
  | token t, ts => ts = [t] ∧ t.Readable
  | kind name, ts => ts = [.identifier name] ∨ ts = [.typeName name]
  | units content, ts => ts = [.literal content] ∨ ts = [.typeName content]
  | separator, ts => ts = [.sign .comma] ∨ ts = []

theorem IsWritten.readable {w : Word} {ts : List Token} (h : w.IsWritten ts) :
    ∀ t ∈ ts, t.Readable := by
  cases w with
  | token t =>
    obtain ⟨rfl, ht⟩ := h
    exact List.forall_mem_singleton.mpr ht
  | kind name | units content =>
    rcases h with rfl | rfl <;> exact List.forall_mem_singleton.mpr trivial
  | separator =>
    rcases h with rfl | rfl
    · exact List.forall_mem_singleton.mpr trivial
    · exact nofun

end Word

/-! ## Words of a tree -/

mutual

/-- An expression as words, with its brackets and operators. -/
def Expr.words : Expr → List Word
  | .var name _ => [.token (.identifier name)]
  | .number numeral _ => [.token (.number numeral)]
  | .literal content _ => [.token (.literal content)]
  | .composite none elements _ =>
    .token (.opening .brace) :: (Expr.elementWords elements ++ [.token (.closing .brace)])
  | .composite (some type) elements _ =>
    .token (.identifier type) :: .token (.opening .brace) ::
      (Expr.elementWords elements ++ [.token (.closing .brace)])
  | .paren inner _ => .token (.opening .round) :: (inner.words ++ [.token (.closing .round)])
  | .negate operand _ => .token (.sign .minus) :: operand.words
  | .binary op left right _ => left.words ++ .token (.sign op.sign) :: right.words
  | .keyed key value _ => .token (.identifier key) :: .token (.sign .colon) :: value.words
  | .pair x y _ =>
    .token (.opening .round) ::
      (x.words ++ .token (.sign .comma) :: (y.words ++ [.token (.closing .round)]))
  | .table points _ =>
    .token (.opening .square) :: (Expr.elementWords points ++ [.token (.closing .square)])
  | .units value note _ => value.words ++ note.words
  | .index t i _ =>
    t.words ++ .token (.opening .square) :: (i.words ++ [.token (.closing .square)])
  | .call function args _ =>
    .token (.identifier function) :: .token (.opening .round) ::
      (Expr.argumentWords args ++ [.token (.closing .round)])

/-- Elements or points as words, with what stands behind each. -/
def Expr.elementWords : List Expr → List Word
  | [] => []
  | e :: es => e.words ++ .separator :: Expr.elementWords es

/-- Arguments as words, with a comma between any two. -/
def Expr.argumentWords : List Expr → List Word
  | [] => []
  | e :: es => e.words ++ Expr.furtherWords es

/-- Arguments as words, with a comma before each. -/
def Expr.furtherWords : List Expr → List Word
  | [] => []
  | e :: es => .token (.sign .comma) :: (e.words ++ Expr.furtherWords es)

end

theorem Expr.argumentWords_cons (e : Expr) {es : List Expr} (h : es ≠ []) :
    argumentWords (e :: es) = e.words ++ .token (.sign .comma) :: argumentWords es := by
  obtain ⟨e', es', rfl⟩ := List.exists_cons_of_ne_nil h
  simp only [argumentWords, furtherWords]

/-- The units of a model or a kind as words. -/
def Expr.headerWords : Expr → List Word
  | .literal content _ => [.units content]
  | note => note.words

/-- A variable with its kind and units as words. -/
def VarDecl.words (d : VarDecl) : List Word :=
  .token (.identifier d.name) ::
    (d.kind.elim [] (fun k => [.kind k.1]) ++ d.units.elim [] Expr.words)

/-- A statement as words. -/
def Stmt.words (s : Stmt) : List Word :=
  s.decl.words ++ s.value.elim [] fun value => .token (.sign .equals) :: value.words

/-- A model or interface as words, behind its keyword. -/
def ModelDecl.words (m : ModelDecl) : List Word :=
  .token (.identifier m.name) ::
    (m.parent.elim [] (fun p => [.token (.keyword .specializes), .token (.identifier p.1)]) ++
      m.units.elim [] Expr.headerWords ++ .token (.opening .brace) ::
        (m.body.stmts.flatMap Stmt.words ++ [.token (.closing .brace)]))

/-- A kind as words, behind its keyword. -/
def KindDecl.words (k : KindDecl) : List Word :=
  .token (.identifier k.name) :: k.units.elim [] Expr.headerWords

/-- A declaration as words. -/
def Decl.words (d : Decl) : List Word :=
  .token (.keyword d.keyword) ::
    match d with
    | .model m | .interface m => m.words
    | .kind k => k.words

/-- A file as words. -/
def File.words (f : File) : List Word :=
  f.package.elim [] (fun name => [.token (.keyword .package), .token (.identifier name)]) ++
    f.imports.flatMap (fun path => [.token (.keyword .imports), .token (.literal path)]) ++
    f.decls.flatMap Decl.words

/-! ## Words in a row of tokens -/

/-- Tokens that spell words: each word in turn, and terminators anywhere. -/
inductive Spells : List Word → List Token → Prop
  | nil : Spells [] []
  | terminator {ws : List Word} {ts : List Token} : Spells ws ts → Spells ws (.terminator :: ts)
  | word {w : Word} {ws : List Word} {used ts : List Token} : w.IsWritten used → Spells ws ts →
      Spells (w :: ws) (used ++ ts)

namespace Spells

variable {ws ws' : List Word} {ts ts' : List Token}

theorem append (h : Spells ws ts) (h' : Spells ws' ts') : Spells (ws ++ ws') (ts ++ ts') := by
  induction h with
  | nil => exact h'
  | terminator _ ih => exact .terminator ih
  | word hw _ ih =>
    rw [List.append_assoc]
    exact .word hw ih

/-- The numbers among tokens that spell words are numerals. -/
theorem readable (h : Spells ws ts) : ∀ t ∈ ts, t.Readable := by
  induction h with
  | nil => exact nofun
  | terminator _ ih => exact List.forall_mem_cons.mpr ⟨trivial, ih⟩
  | word hw _ ih => exact List.forall_mem_append.mpr ⟨hw.readable, ih⟩

/-- A token among the words is among the tokens that spell them. -/
theorem mem_of_token_mem {t : Token} (h : Spells ws ts) (ht : .token t ∈ ws) : t ∈ ts := by
  induction h with
  | nil => cases ht
  | terminator _ ih => exact List.mem_cons_of_mem _ (ih ht)
  | word hw _ ih =>
    rw [List.mem_append]
    rcases List.mem_cons.mp ht with rfl | ht
    · obtain ⟨rfl, -⟩ := hw
      exact Or.inl (List.mem_singleton_self t)
    · exact Or.inr (ih ht)

end Spells

namespace Stream

/-- What was read between two streams spells these words. -/
def Reads (s s' : Stream) (ws : List Word) : Prop :=
  ∃ used, s.rest = used ++ s'.rest ∧ Spells ws (used.map Lexeme.token)

variable {s s₁ s₂ : Stream} {ws ws' : List Word}

theorem Reads.refl (s : Stream) : s.Reads s [] := ⟨[], rfl, .nil⟩

theorem Reads.trans (h : s.Reads s₁ ws) (h' : s₁.Reads s₂ ws') : s.Reads s₂ (ws ++ ws') := by
  obtain ⟨used, hrest, hspells⟩ := h
  obtain ⟨used', hrest', hspells'⟩ := h'
  refine ⟨used ++ used', ?_, ?_⟩
  · rw [hrest, hrest', List.append_assoc]
  · rw [List.map_append]
    exact hspells.append hspells'

/-- What was read and what is left spell the words of both. -/
theorem Reads.spells (h : s.Reads s₁ ws) (h' : Spells ws' (s₁.rest.map Lexeme.token)) :
    Spells (ws ++ ws') (s.rest.map Lexeme.token) := by
  obtain ⟨used, hrest, hspells⟩ := h
  rw [hrest, List.map_append]
  exact hspells.append h'

/-- Where no comma stands behind an element, nothing is read. -/
theorem Reads.separator (s : Stream) : s.Reads s [.separator] := by
  have hw : Word.separator.IsWritten [] := Or.inr rfl
  exact ⟨[], rfl, .word hw .nil⟩

/-! ## Reading one token -/

theorem rest_of_next? {r : Parsed Lexeme s.size} (h : s.next? = some r) :
    s.rest = r.value :: r.stream.rest := by
  unfold next? at h
  split at h
  · cases h
  · next hrest =>
    cases h
    exact hrest

theorem rest_of_next?_none (h : s.next? = none) : s.rest = [] := by
  unfold next? at h
  split at h
  · next hrest => exact hrest
  · cases h

theorem reads_next? {r : Parsed Lexeme s.size} {w : Word} (h : s.next? = some r)
    (hw : w.IsWritten [r.value.token]) : s.Reads r.stream [w] :=
  ⟨[r.value], rest_of_next? h, .word hw .nil⟩

theorem reads_token {r : Parsed Lexeme s.size} (h : s.next? = some r)
    (ht : r.value.token.Readable) : s.Reads r.stream [.token r.value.token] :=
  reads_next? h ⟨rfl, ht⟩

theorem reads_terminator_next? {r : Parsed Lexeme s.size} (h : s.next? = some r)
    (ht : r.value.token = .terminator) : s.Reads r.stream [] := by
  refine ⟨[r.value], rest_of_next? h, ?_⟩
  rw [List.map_singleton, ht]
  exact .terminator .nil

theorem reads_take? {t : Token} {r : Parsed Span s.size} (h : s.take? t = some r)
    (ht : t.Readable) : s.Reads r.stream [.token t] := by
  unfold take? at h
  split at h
  · next hnext =>
    obtain ⟨rfl, hr⟩ := Option.ite_none_right_eq_some.mp h
    cases hr
    exact reads_token hnext ht
  · cases h

theorem reads_expect {t : Token} {r : Parsed Span s.size} (h : s.expect t = .ok r)
    (ht : t.Readable) : s.Reads r.stream [.token t] := by
  unfold expect at h
  split at h
  · next htake =>
    cases h
    exact reads_take? htake ht
  · cases h

theorem reads_identifier {r : Parsed (String × Span) s.size} (h : s.identifier = .ok r) :
    s.Reads r.stream [.token (.identifier r.value.1)] := by
  unfold identifier at h
  split at h
  · next hnext =>
    cases h
    exact reads_token hnext trivial
  · cases h
  · cases h

theorem reads_terminator {r : Parsed Unit (s.size + 1)} (h : s.terminator = .ok r) :
    s.Reads r.stream [] := by
  unfold terminator at h
  split at h
  · next hnext =>
    cases h
    exact reads_terminator_next? hnext rfl
  · cases h
    exact .refl s
  · cases h
    exact .refl s
  · cases h

theorem reads_dropTerminators (s : Stream) : s.Reads s.dropTerminators.stream [] := by
  fun_induction dropTerminators s with
  | case1 s span more hrest _ s₁ _ htail ih =>
    rw [htail] at ih
    obtain ⟨used, hused, hspells⟩ := ih
    exact ⟨⟨.terminator, span⟩ :: used, hrest.trans (congrArg _ hused), .terminator hspells⟩
  | case2 s => exact .refl s

end Stream

end StockFlow
