import StockFlow.Proofs.Grammar.Expression
import StockFlow.Proofs.Grammar.Faults

/-!
# What is said to be equal to variables

* `File.values` — what the statements of a file say is equal to their variables
* `File.derives_of_mem_values` — each is derived from tokens that stand in a row in the text
* `File.fits_of_mem_values` — each fits the grammar
-/

namespace StockFlow

/-- What the statements of a declaration say is equal to their variables. -/
def Decl.values (d : Decl) : List Expr :=
  d.modelDecl?.elim [] fun m => m.body.stmts.filterMap Stmt.value

/-- What the statements of a file say is equal to their variables. -/
def File.values (f : File) : List Expr := f.decls.flatMap Decl.values

namespace Stream

variable {s t : Stream} {e : Expr}

/-- **An expression, perhaps with units, is derived from tokens that stand in a row further on.** -/
def Holds (s : Stream) (e : Expr) : Prop := ∃ ls, ls <:+: s.rest ∧ e.Derives .annotated ls

theorem Holds.of_onward (h : t.Holds e) (hst : s.Onward t) : s.Holds e := by
  obtain ⟨ls, hls, hd⟩ := h
  exact ⟨ls, hls.trans hst.suffix.1.isInfix, hd⟩

theorem holds_statement {r : Parsed Stmt s.size} (h : s.statement = .ok r) :
    ∀ e, r.value.value = some e → s.Holds e := by
  unfold statement at h
  obtain ⟨⟨decl, s₁, h₁⟩, hdecl, h⟩ := bind_eq_ok.mp h
  obtain ⟨⟨value, s₂, h₂⟩, hvalue, h⟩ := bind_eq_ok.mp h
  obtain ⟨⟨_, s₃, h₃⟩, hend, h⟩ := bind_eq_ok.mp h
  cases h
  have hstops := stops_varDecl s
  rw [hdecl] at hstops
  cases hstops with | ok hpasses
  unfold assigned at hvalue
  split at hvalue
  · cases hvalue
    intro e he
    cases he
  · next equals s₁' h₁' hequals =>
    obtain ⟨⟨e, s₂, h₂⟩, he, hvalue⟩ := bind_eq_ok.mp hvalue
    cases hvalue
    intro e' he'
    obtain rfl : e = e' := Option.some.inj he'
    obtain ⟨ls, hs, hd⟩ := makes_annotated he
    have hholds : s₁'.Holds e := ⟨ls, hs ▸ (List.prefix_append ls _).isInfix, hd⟩
    exact hholds.of_onward (hpasses.onward.trans (onward_take? hequals))

theorem holds_body {s : Stream} :
    ∀ stmt ∈ s.body.stmts, ∀ e, stmt.value = some e → s.Holds e := by
  have hdropped : ∀ {s t : Stream} {ht}, s.dropTerminators = ⟨(), t, ht⟩ → s.Onward t := by
    intro s t ht h
    have hdrop := (passes_dropTerminators s).onward
    rwa [h] at hdrop
  fun_induction body s with
  | case1 | case2 | case3 => exact List.forall_mem_nil _
  | case4 s _ s₀ h₀ hdrop _ _ _ _ stmt s₂ h₂ hstmt r ih =>
    have hstops := stops_statement s₀
    rw [hstmt] at hstops
    cases hstops with | ok hpasses
    refine List.forall_mem_cons.mpr ⟨fun e he => ?_, fun stmt' hmem e he => ?_⟩
    · exact (holds_statement hstmt e he).of_onward (hdropped hdrop)
    · exact (ih stmt' hmem e he).of_onward ((hdropped hdrop).trans hpasses.onward)
  | case5 s _ s₀ h₀ hdrop _ _ _ _ e hstmt hskip r ih =>
    intro stmt hmem e' he'
    refine (ih stmt hmem e' he').of_onward ((hdropped hdrop).trans ?_)
    exact (passes_skipStatement 0 s₀).onward

theorem holds_modelDecl {start : Pos} {make : ModelDecl → Decl}
    (hmake : ∀ m, (make m).modelDecl? = some m) :
    ∀ d, (s.modelDecl start make).decl = some d → ∀ e ∈ d.values, s.Holds e := by
  have hhalts := halts_modelHead s
  unfold modelDecl
  generalize s.modelHead = head at hhalts ⊢
  cases hhalts with
  | error =>
    intro d hd
    cases hd
  | @ok head s₁ hs₁ hpasses =>
    simp only
    split
    · intro d hd
      cases hd
    · intro d hd e he
      obtain rfl := Option.some.inj hd
      simp only [Decl.values, hmake, Option.elim_some, List.mem_filterMap] at he
      obtain ⟨stmt, hstmt, he⟩ := he
      exact (holds_body stmt hstmt e he).of_onward hpasses.onward

theorem holds_declaration {first : Parsed Lexeme s.size} (hnext : s.next? = some first) :
    ∀ d, (s.declaration first).decl = some d → ∀ e ∈ d.values, s.Holds e := by
  have hfirst : s.Onward first.stream := .of_next? hnext
  unfold declaration
  simp only
  split
  · exact fun d hd e he => (holds_modelDecl (fun _ => rfl) d hd e he).of_onward hfirst
  · exact fun d hd e he => (holds_modelDecl (fun _ => rfl) d hd e he).of_onward hfirst
  · split
    · intro d hd
      obtain rfl := Option.some.inj hd
      exact List.forall_mem_nil _
    · intro d hd
      cases hd
  · intro d hd
    cases hd

end Stream

namespace File

/-- What the statements of a file say is derived from its tokens. -/
theorem holds_of_mem_values {s : Stream} {e : Expr} (he : e ∈ (ofStream s).values) : s.Holds e := by
  obtain ⟨d, hd, he⟩ := List.mem_flatMap.mp he
  rw [decls_ofStream] at hd
  obtain ⟨v, hv, hd⟩ := List.mem_filterMap.mp hd
  have honward : s.Onward v :=
    s.partAhead_package.2.trans (s.package.stream.partAhead_imports.2.trans
      (Stream.onward_of_mem_begun hv))
  cases hnext : v.next? with
  | none =>
    rw [Stream.decl?, Stream.read?, hnext] at hd
    cases hd
  | some first =>
    rw [Stream.decl?, Stream.read?_eq hnext] at hd
    exact (Stream.holds_declaration hnext d hd e he).of_onward honward

/-- **What a statement says is equal to its variable is derived from tokens that stand in a row in
the text.** -/
theorem derives_of_mem_values {text : String} {e : Expr} (he : e ∈ (parse text).values) :
    ∃ ls, ls <:+: (Scan.ofText text).lexemes ∧ e.Derives .annotated ls := by
  unfold parse at he
  simp only at he
  split at he
  · cases he
  · exact holds_of_mem_values he

/-- **Whatever a statement of a file says is equal to its variable is a tree of the grammar.** -/
theorem fits_of_mem_values {text : String} {e : Expr} (he : e ∈ (parse text).values) :
    e.Fits .annotated := by
  obtain ⟨ls, -, hd⟩ := derives_of_mem_values he
  exact hd.fits

end File

end StockFlow
