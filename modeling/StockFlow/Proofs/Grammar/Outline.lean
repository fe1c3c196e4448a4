import StockFlow.Proofs.Grammar.Expression

/-!
# Files are read token by token

Where no error is found no part of a file is given up, so that every token is part of the tree or
stands between its parts.

* `Stream.reads_statement`, `Stream.reads_body` — statements and bodies
* `Stream.reads_declaration`, `Stream.reads_declarations` — declarations
* `File.spells_ofStream`, `File.spells_of_parse` — a file without errors spells all of its tokens
-/

namespace StockFlow

namespace Stream

variable {s : Stream}

/-! ## Statements -/

theorem reads_kind? {r : Parsed (String × Span) s.size} (h : s.kind? = some r) :
    s.Reads r.stream [.kind r.value.1] := by
  unfold kind? at h
  split at h
  · next hnext =>
    cases h
    exact reads_next? hnext (Or.inl rfl)
  · next hnext =>
    cases h
    exact reads_next? hnext (Or.inr rfl)
  · cases h

/-- What may stand there or not is read as it is, or as nothing. -/
theorem reads_optional {α : Type} (s : Stream) (words : α → List Word)
    {o : Option (Parsed α s.size)} (h : ∀ r, o = some r → s.Reads r.stream (words r.value)) :
    s.Reads (s.optional o).stream ((s.optional o).value.elim [] words) := by
  cases o with
  | none => exact .refl s
  | some r => exact h r rfl

theorem reads_varDecl {r : Parsed VarDecl s.size} (h : s.varDecl = .ok r) :
    s.Reads r.stream r.value.words := by
  unfold varDecl at h
  obtain ⟨⟨⟨name, span⟩, s₁, h₁⟩, hname, h⟩ := bind_eq_ok.mp h
  cases h
  have hkind := s₁.reads_optional (fun k : String × Span => [.kind k.1]) fun _ => reads_kind?
  have hunits := (s₁.optional s₁.kind?).stream.reads_optional Expr.words fun _ => reads_units?
  exact (reads_identifier hname).trans (hkind.trans hunits)

theorem reads_assigned {r : Parsed (Option Expr) (s.size + 1)} (h : s.assigned = .ok r) :
    s.Reads r.stream (r.value.elim [] fun value => .token (.sign .equals) :: value.words) := by
  unfold assigned at h
  split at h
  · cases h
    exact .refl s
  · next sign s₁ h₁ hsign =>
    obtain ⟨⟨value, s₂, h₂⟩, hvalue, h⟩ := bind_eq_ok.mp h
    cases h
    exact (reads_take? hsign trivial).trans (reads_annotated hvalue)

theorem reads_statement {r : Parsed Stmt s.size} (h : s.statement = .ok r) :
    s.Reads r.stream r.value.words := by
  unfold statement at h
  obtain ⟨⟨decl, s₁, h₁⟩, hdecl, h⟩ := bind_eq_ok.mp h
  obtain ⟨⟨value, s₂, h₂⟩, hvalue, h⟩ := bind_eq_ok.mp h
  obtain ⟨⟨_, s₃, h₃⟩, hend, h⟩ := bind_eq_ok.mp h
  cases h
  have hall := (reads_varDecl hdecl).trans ((reads_assigned hvalue).trans (reads_terminator hend))
  simpa only [Stmt.words, List.append_nil] using hall

/-- **A body without errors is read up to its closing brace.** -/
theorem reads_body {s : Stream} (h : s.body.errors = []) : ∃ stop, s.body.stop = some stop ∧
    s.Reads s.body.stream (s.body.stmts.flatMap Stmt.words ++ [.token (.closing .brace)]) := by
  fun_induction body s with
  | case1 => cases h
  | case2 s _ s₀ h₀ hdrop r hnext hclosing =>
    have hskip := reads_dropTerminators s
    rw [hdrop] at hskip
    have hclosed := reads_token hnext (hclosing ▸ trivial)
    rw [hclosing] at hclosed
    exact ⟨_, rfl, hskip.trans hclosed⟩
  | case3 => cases h
  | case4 s _ s₀ h₀ hdrop _ _ _ _ stmt s₂ h₂ hstmt r ih =>
    have hskip := reads_dropTerminators s
    rw [hdrop] at hskip
    obtain ⟨stop, hstop, hmore⟩ := ih h
    refine ⟨stop, hstop, ?_⟩
    have hall := hskip.trans ((reads_statement hstmt).trans hmore)
    simpa only [List.flatMap_cons, List.nil_append, List.append_assoc] using hall
  | case5 => cases h

/-! ## Package and imports -/

theorem orStuck_eq_ok {α : Type} {n : Nat} {hs : s.size < n} {x : Except SyntaxError α} {a : α} :
    s.orStuck hs x = .ok a ↔ x = .ok a := by
  cases x with
  | error e => exact ⟨nofun, nofun⟩
  | ok a' => exact ⟨fun h => congrArg _ (Except.ok.inj h), fun h => congrArg _ (Except.ok.inj h)⟩

theorem reads_packageName {r : Parsed String s.size} (h : s.packageName = .ok r) :
    s.Reads r.stream [.token (.identifier r.value)] := by
  unfold packageName at h
  obtain ⟨⟨⟨name, span⟩, s₁, h₁⟩, hname, h⟩ := bind_eq_ok.mp h
  obtain ⟨⟨_, s₂, h₂⟩, hend, h⟩ := bind_eq_ok.mp h
  cases h
  exact (reads_identifier (orStuck_eq_ok.mp hname)).trans (reads_terminator (orStuck_eq_ok.mp hend))

theorem reads_path {r : Parsed String s.size} (h : s.path = .ok r) :
    s.Reads r.stream [.token (.literal r.value)] := by
  unfold path at h
  split at h
  · next hnext =>
    cases h
    exact reads_token hnext trivial
  · cases h

theorem reads_importPath {r : Parsed String s.size} (h : s.importPath = .ok r) :
    s.Reads r.stream [.token (.literal r.value)] := by
  unfold importPath at h
  obtain ⟨⟨path, s₁, h₁⟩, hpath, h⟩ := bind_eq_ok.mp h
  obtain ⟨⟨_, s₂, h₂⟩, hend, h⟩ := bind_eq_ok.mp h
  cases h
  exact (reads_path (orStuck_eq_ok.mp hpath)).trans (reads_terminator (orStuck_eq_ok.mp hend))

theorem reads_package (h : s.package.errors = []) :
    s.Reads s.package.stream (s.package.items.head?.elim []
      fun name => [.token (.keyword .package), .token (.identifier name)]) := by
  have hskip := reads_dropTerminators s
  unfold package at h ⊢
  generalize s.dropTerminators = skipped at h hskip ⊢
  obtain ⟨_, s₀, h₀⟩ := skipped
  simp only at h ⊢
  split at h
  · exact hskip
  · next keyword s₁ h₁ hkeyword =>
    split at h
    · next name s₂ h₂ hname =>
      exact hskip.trans ((reads_take? hkeyword trivial).trans (reads_packageName hname))
    · cases h

theorem reads_imports {s : Stream} (h : s.imports.errors = []) :
    s.Reads s.imports.stream (s.imports.items.flatMap
      fun path => [.token (.keyword .imports), .token (.literal path)]) := by
  fun_induction imports s with
  | case1 s _ s₀ h₀ hdrop =>
    have hskip := reads_dropTerminators s
    rwa [hdrop] at hskip
  | case2 s _ s₀ h₀ hdrop _ s₁ h₁ hkeyword path s₂ h₂ hpath r ih =>
    have hskip := reads_dropTerminators s
    rw [hdrop] at hskip
    have hfirst := (reads_take? hkeyword trivial).trans (reads_importPath hpath)
    exact hskip.trans (hfirst.trans (ih h))
  | case3 => cases h

/-! ## Declarations -/

theorem reads_headerUnits {r : Parsed Expr s.size} (h : s.units? true = some r) :
    s.Reads r.stream r.value.headerWords := by
  unfold units? at h
  split at h
  · next hnext =>
    cases h
    exact reads_next? hnext (Or.inl rfl)
  · next hnext =>
    cases h
    exact reads_next? hnext (Or.inr rfl)
  · cases h

theorem reads_kindDecl {start : Pos} {r : Parsed KindDecl s.size} (h : s.kindDecl start = .ok r) :
    s.Reads r.stream r.value.words := by
  unfold kindDecl at h
  obtain ⟨⟨⟨name, span⟩, s₁, h₁⟩, hname, h⟩ := bind_eq_ok.mp h
  obtain ⟨⟨_, s₂, h₂⟩, hend, h⟩ := bind_eq_ok.mp h
  cases h
  have hunits := s₁.reads_optional Expr.headerWords fun _ => reads_headerUnits
  have hall := (reads_identifier (orStuck_eq_ok.mp hname)).trans
    (hunits.trans (reads_terminator (orStuck_eq_ok.mp hend)))
  rwa [List.append_nil] at hall

theorem reads_parent {r : Parsed (Option (String × Span)) (s.size + 1)} (h : s.parent = .ok r) :
    s.Reads r.stream (r.value.elim []
      fun p => [.token (.keyword .specializes), .token (.identifier p.1)]) := by
  unfold parent at h
  split at h
  · cases h
    exact .refl s
  · next keyword s₁ h₁ hkeyword =>
    obtain ⟨⟨parent, s₂, h₂⟩, hparent, h⟩ := bind_eq_ok.mp h
    cases h
    exact (reads_take? hkeyword trivial).trans (reads_identifier (orStuck_eq_ok.mp hparent))

/-- The first line of a model as words. -/
def ModelHead.words (head : ModelHead) : List Word :=
  .token (.identifier head.name) ::
    (head.parent.elim [] (fun p => [.token (.keyword .specializes), .token (.identifier p.1)]) ++
      head.units.elim [] Expr.headerWords ++ [.token (.opening .brace)])

theorem reads_modelHead {r : Parsed ModelHead s.size} (h : s.modelHead = .ok r) :
    s.Reads r.stream r.value.words := by
  unfold modelHead at h
  obtain ⟨⟨⟨name, span⟩, s₁, h₁⟩, hname, h⟩ := bind_eq_ok.mp h
  obtain ⟨⟨parent, s₂, h₂⟩, hparent, h⟩ := bind_eq_ok.mp h
  obtain ⟨⟨brace, s₃, h₃⟩, hbrace, h⟩ := bind_eq_ok.mp h
  cases h
  have hunits := s₂.reads_optional Expr.headerWords fun _ => reads_headerUnits
  have hhead := (reads_identifier (orStuck_eq_ok.mp hname)).trans
    (((reads_parent (mapError_eq_ok.mp hparent)).trans hunits).trans
      (reads_expect (orStuck_eq_ok.mp hbrace) trivial))
  exact hhead

/-- **A model without errors is read as a whole.** -/
theorem reads_modelDecl {start : Pos} {make : ModelDecl → Decl}
    (h : (s.modelDecl start make).errors = []) :
    ∃ m, (s.modelDecl start make).decl = some (make m) ∧
      s.Reads (s.modelDecl start make).stream m.words := by
  unfold modelDecl at h ⊢
  split at h
  · cases h
  · next head s₁ h₁ hhead =>
    simp only at h ⊢
    split at h
    · next hstop =>
      obtain ⟨stop, hsome, -⟩ := reads_body h
      rw [hstop] at hsome
      cases hsome
    · next stop hstop =>
      obtain ⟨_, -, hbody⟩ := reads_body h
      refine ⟨_, rfl, ?_⟩
      have hall := (reads_modelHead hhead).trans hbody
      simpa only [ModelDecl.words, ModelHead.words, List.append_assoc, List.cons_append,
        List.nil_append] using hall

/-- **A declaration without errors is read as a whole.** -/
theorem reads_declaration {first : Parsed Lexeme s.size} (hnext : s.next? = some first)
    (h : (s.declaration first).errors = []) : ∃ d, (s.declaration first).decl = some d ∧
      s.Reads (s.declaration first).stream d.words := by
  have hfirst := fun ht => reads_token hnext ht
  unfold declaration at h ⊢
  simp only at h ⊢
  split at h
  · next hword =>
    obtain ⟨m, hm, hreads⟩ := reads_modelDecl h
    rw [hword] at hfirst
    exact ⟨_, hm, (hfirst trivial).trans hreads⟩
  · next hword =>
    obtain ⟨m, hm, hreads⟩ := reads_modelDecl h
    rw [hword] at hfirst
    exact ⟨_, hm, (hfirst trivial).trans hreads⟩
  · next hword =>
    rw [hword] at hfirst
    split at h
    · next kind s₁ h₁ hkind => exact ⟨_, rfl, (hfirst trivial).trans (reads_kindDecl hkind)⟩
    · cases h
  · cases h

/-- **Declarations without errors are read to the end of the text.** -/
theorem reads_declarations {s : Stream} (h : s.declarations.2 = []) :
    Spells (s.declarations.1.flatMap Decl.words) (s.rest.map Lexeme.token) := by
  fun_induction declarations s with
  | case1 s _ s₀ h₀ hdrop hnone =>
    have hskip := reads_dropTerminators s
    rw [hdrop] at hskip
    have hend : Spells [] (s₀.rest.map Lexeme.token) := rest_of_next?_none hnone ▸ .nil
    exact hskip.spells hend
  | case2 s _ s₀ h₀ hdrop first hnext decl errors s₁ h₁ hdecl decls more hmore ih =>
    have hskip := reads_dropTerminators s
    rw [hdrop] at hskip
    obtain ⟨herrors, hrest⟩ := List.append_eq_nil_iff.mp h
    obtain ⟨d, hd, hreads⟩ := reads_declaration hnext (by rw [hdecl]; exact herrors)
    rw [hdecl] at hd hreads
    obtain rfl : decl = some d := hd
    rw [hmore] at ih
    exact hskip.spells (hreads.spells (ih hrest))

end Stream

namespace File

/-- **A file without errors spells all of its tokens.** -/
theorem spells_ofStream {s : Stream} (h : (ofStream s).errors = []) :
    Spells (ofStream s).words (s.rest.map Lexeme.token) := by
  obtain ⟨hfirst, hdecls⟩ := List.append_eq_nil_iff.mp h
  obtain ⟨hpackage, himports⟩ := List.append_eq_nil_iff.mp hfirst
  have hhead := (Stream.reads_package hpackage).trans (Stream.reads_imports himports)
  exact hhead.spells (Stream.reads_declarations hdecls)

variable {text : String}

/-- Where no error is found in a text, the scanner finds none, and the file is read from its
tokens. -/
theorem scanned_of_parse (h : (parse text).errors = []) : (Scan.ofText text).error = none ∧
    parse text = ofStream ⟨(Scan.ofText text).lexemes, Pos.start, Pos.ofEnd text⟩ := by
  unfold parse at h ⊢
  simp only at h ⊢
  split at h
  · cases h
  · next herror => exact ⟨herror, rfl⟩

/-- Where no error is found in a text, what it declares spells its tokens. -/
theorem spells_of_parse (h : (parse text).errors = []) :
    Spells (parse text).words ((Scan.ofText text).lexemes.map Lexeme.token) := by
  have hparse := (scanned_of_parse h).2
  rw [hparse] at h ⊢
  exact spells_ofStream h

/-- Where no error is found in a text, all numbers in it are numerals. -/
theorem readable_of_parse (h : (parse text).errors = []) :
    ∀ l ∈ (Scan.ofText text).lexemes, l.token.Readable :=
  fun _ hl => (spells_of_parse h).readable _ (List.mem_map_of_mem hl)

end File

end StockFlow
