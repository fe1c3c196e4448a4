import StockFlow.Proofs.Grammar.Outline
import StockFlow.Proofs.Grammar.Reread
import StockFlow.Proofs.Grammar.Values
import StockFlow.Proofs.Grammar.Written

/-!
# An expression is read back from its text

* `Stream.gives_statement`, `Stream.body_assigned` — a body that sets one variable
* `File.ofStream_assigned` — a file of one model that sets one variable
* `File.parse_assigned`, `File.parse_assignment` — a text that is read as an expression can stand
  behind a variable
* `File.reread_of_parse` — what was read without errors is read again from its text
-/

namespace StockFlow

/-- A model that sets one variable, to what is the same as `e` wherever it stands. -/
structure ModelDecl.Sets (m : ModelDecl) (name x : String) (e : Expr) : Prop where
  name : m.name = name
  parent : m.parent = none
  units : m.units = none
  value : ∃ span e', m.body.stmts = [⟨⟨x, none, none, span⟩, some e'⟩] ∧ e'.unplaced = e.unplaced

/-! ## Reading a model that sets one variable -/

namespace Stream

variable {s : Stream} {us ts : List Token} {name x : String} {e : Expr}

theorem gives_varDecl (hs : s.tokens = .identifier x :: .sign .equals :: ts) :
    Gives s.varDecl (fun d => ∃ span, d = ⟨x, none, none, span⟩) (.sign .equals :: ts) := by
  unfold varDecl
  refine (gives_identifier hs).bind ?_
  rintro ⟨_, span⟩ s₁ h₁ rfl hs₁
  obtain ⟨sign, s₂, h₂, hnext, -⟩ := exists_next? hs₁
  have hkind : s₁.optional s₁.kind? = ⟨none, s₁, s₁.lt_succ⟩ := by
    rw [kind?, hnext]
    rfl
  have hunits : s₁.optional (s₁.units? false) = ⟨none, s₁, s₁.lt_succ⟩ := by
    rw [units?, hnext]
    rfl
  simp only
  generalize s₁.optional s₁.kind? = kind at hkind ⊢
  subst hkind
  simp only
  generalize s₁.optional (s₁.units? false) = units at hunits ⊢
  subst hunits
  exact ⟨_, s₁, _, rfl, ⟨_, rfl⟩, hs₁⟩

theorem gives_statement (he : Rereads annotated 1 us e)
    (hs : s.tokens = .identifier x :: .sign .equals :: (us ++ .closing .brace :: ts)) :
    Gives s.statement (fun stmt => ∃ span e', stmt = ⟨⟨x, none, none, span⟩, some e'⟩ ∧ e.Same e')
      (.closing .brace :: ts) := by
  unfold statement
  refine (gives_varDecl hs).bind fun decl s₁ h₁ hdecl hs₁ => ?_
  obtain ⟨span, rfl⟩ := hdecl
  have hvalue : Gives s₁.assigned (fun v => ∃ e', v = some e' ∧ e.Same e')
      (.closing .brace :: ts) := by
    obtain ⟨sign, s₂, h₂, htake, hs₂⟩ := exists_take? hs₁
    rw [assigned, htake]
    refine (he s₂ _ hs₂ (.cons Nat.one_pos)).bind fun e' s₃ h₃ hsame hs₃ => ?_
    exact ⟨_, s₃, _, rfl, ⟨e', rfl, hsame⟩, hs₃⟩
  refine hvalue.bind fun v s₂ h₂ hv hs₂ => ?_
  obtain ⟨e', rfl, hsame⟩ := hv
  obtain ⟨brace, s₃, h₃, hnext, -⟩ := exists_next? hs₂
  have hend : s₂.terminator = .ok ⟨(), s₂, s₂.lt_succ⟩ := by rw [terminator, hnext]
  refine .after hend ?_
  exact ⟨_, s₂, _, rfl, ⟨span, e', rfl, hsame⟩, hs₂⟩

theorem body_closed (hs : s.tokens = .closing .brace :: ts) : ∃ stop, s.body.stmts = [] ∧
    s.body.errors = [] ∧ s.body.stop = some stop ∧ s.body.stream.tokens = ts := by
  have hskip : s.dropTerminators = ⟨(), s, s.lt_succ⟩ := dropTerminators_eq (by rw [hs]; nofun)
  obtain ⟨span, s₁, h₁, hnext, hs₁⟩ := exists_next? hs
  rw [body]
  generalize s.dropTerminators = skipped at hskip ⊢
  subst hskip
  simp only
  split
  · next hnone =>
    rw [hnext] at hnone
    cases hnone
  · next r hr =>
    rw [hnext] at hr
    cases hr
    exact ⟨span.stop, rfl, rfl, rfl, hs₁⟩

theorem body_assigned (he : Rereads annotated 1 us e)
    (hs : s.tokens = .identifier x :: .sign .equals :: (us ++ .closing .brace :: ts)) :
    ∃ span e' stop, s.body.stmts = [⟨⟨x, none, none, span⟩, some e'⟩] ∧ e.Same e' ∧
      s.body.errors = [] ∧ s.body.stop = some stop ∧ s.body.stream.tokens = ts := by
  have hskip : s.dropTerminators = ⟨(), s, s.lt_succ⟩ := dropTerminators_eq (by rw [hs]; nofun)
  obtain ⟨_, s₁, h₁, hnext, -⟩ := exists_next? hs
  obtain ⟨stmt, s₂, h₂, hstmt, ⟨span, e', rfl, hsame⟩, hs₂⟩ := gives_statement he hs
  obtain ⟨stop, hstmts, herrors, hstop, hrest⟩ := body_closed hs₂
  rw [body]
  generalize s.dropTerminators = skipped at hskip ⊢
  subst hskip
  simp only
  split
  · next hnone =>
    rw [hnext] at hnone
    cases hnone
  · next r hr =>
    rw [hnext] at hr
    cases hr
    simp only [hstmt]
    exact ⟨span, e', stop, congrArg _ hstmts, hsame, herrors, hstop, hrest⟩

/-! ## Reading a file with one such model -/

theorem gives_modelHead (hs : s.tokens = .identifier name :: .opening .brace :: ts) :
    Gives s.modelHead (fun head => head.name = name ∧ head.parent = none ∧ head.units = none)
      ts := by
  unfold modelHead
  obtain ⟨⟨_, span⟩, s₁, h₁, hname, rfl, hs₁⟩ := gives_identifier hs
  obtain ⟨_, _, _, hnext, -⟩ := exists_next? hs₁
  have hparent : s₁.parent = .ok ⟨none, s₁, s₁.lt_succ⟩ := by
    have hnone : s₁.take? (.keyword .specializes) = none := take?_eq_none (by rw [hs₁]; nofun)
    rw [parent, hnone]
  have hunits : s₁.optional (s₁.units? true) = ⟨none, s₁, s₁.lt_succ⟩ := by
    rw [units?, hnext]
    rfl
  obtain ⟨brace, s₂, h₂, hbrace, -, hs₂⟩ := gives_expect hs₁
  refine .after (orStuck_eq_ok.mpr hname) (.after (mapError_eq_ok.mpr hparent) ?_)
  simp only
  generalize s₁.optional (s₁.units? true) = units at hunits ⊢
  subst hunits
  refine .after (orStuck_eq_ok.mpr hbrace) ?_
  exact ⟨_, s₂, _, rfl, ⟨rfl, rfl, rfl⟩, hs₂⟩

theorem modelDecl_assigned {start : Pos} {make : ModelDecl → Decl} (he : Rereads annotated 1 us e)
    (hs : s.tokens = .identifier name :: .opening .brace :: .identifier x :: .sign .equals ::
      (us ++ .closing .brace :: ts)) :
    ∃ m, (s.modelDecl start make).decl = some (make m) ∧ m.Sets name x e ∧
      (s.modelDecl start make).errors = [] ∧ (s.modelDecl start make).stream.tokens = ts := by
  obtain ⟨head, s₁, h₁, hhead, ⟨hname, hparent, hunits⟩, hs₁⟩ := gives_modelHead hs
  obtain ⟨span, e', stop, hstmts, hsame, herrors, hstop, hrest⟩ := body_assigned he hs₁
  unfold modelDecl
  simp only [hhead]
  split
  · next hnone =>
    rw [hstop] at hnone
    cases hnone
  · exact ⟨_, rfl, ⟨hname, hparent, hunits, ⟨span, e', hstmts, hsame⟩⟩, herrors, hrest⟩

theorem declaration_assigned {first : Parsed Lexeme s.size} (he : Rereads annotated 1 us e)
    (hfirst : first.value.token = .keyword .model)
    (hs : first.stream.tokens = .identifier name :: .opening .brace :: .identifier x ::
      .sign .equals :: (us ++ .closing .brace :: ts)) :
    ∃ m, (s.declaration first).decl = some (.model m) ∧ m.Sets name x e ∧
      (s.declaration first).errors = [] ∧ (s.declaration first).stream.tokens = ts := by
  unfold declaration
  simp only [hfirst]
  exact modelDecl_assigned he hs

theorem declarations_eq_nil (hs : s.tokens = [] ∨ s.tokens = [.terminator]) :
    s.declarations = ([], []) := by
  have hskip : s.dropTerminators.stream.tokens = [] := by
    rw [tokens_dropTerminators]
    rcases hs with hs | hs <;> rw [hs] <;> rfl
  rw [declarations]
  simp only [next?_eq_none hskip]

theorem declarations_assigned (he : Rereads annotated 1 us e)
    (hs : s.tokens = .keyword .model :: .identifier name :: .opening .brace :: .identifier x ::
      .sign .equals :: (us ++ .closing .brace :: ts))
    (hts : ts = [] ∨ ts = [.terminator]) :
    ∃ m, s.declarations = ([.model m], []) ∧ m.Sets name x e := by
  have hskip : s.dropTerminators = ⟨(), s, s.lt_succ⟩ := dropTerminators_eq (by rw [hs]; nofun)
  obtain ⟨span, s₁, h₁, hnext, hs₁⟩ := exists_next? hs
  obtain ⟨m, hdecl, hsets, herrors, hrest⟩ :=
    @declaration_assigned s us ts name x e ⟨⟨.keyword .model, span⟩, s₁, h₁⟩ he rfl hs₁
  have hend := declarations_eq_nil (hrest ▸ hts)
  refine ⟨m, ?_, hsets⟩
  rw [declarations]
  generalize s.dropTerminators = skipped at hskip ⊢
  subst hskip
  simp only [hnext]
  generalize s.declaration ⟨⟨.keyword .model, span⟩, s₁, h₁⟩ = read at hdecl herrors hend ⊢
  obtain ⟨decl, errors, s₂, h₂⟩ := read
  obtain rfl : decl = some (.model m) := hdecl
  obtain rfl : errors = [] := herrors
  simp only at hend ⊢
  rw [hend]
  rfl

end Stream

/-- A text that declares a model in which one variable is set. -/
def assignment (name x value : String) : String :=
  "model " ++ name ++ " \x7b " ++ x ++ " = " ++ value ++ " \x7d"

open Scan in
theorem scans_assignment {name x value : String} {us : List Token} (hname : Token.IsName name)
    (hx : Token.IsName x) (hvalue : Writes value.toList us) (hlexical : ∀ t ∈ us, t.Lexical) :
    Scans (assignment name x value).toList
      (.keyword .model :: .identifier name :: .opening .brace :: .identifier x :: .sign .equals ::
        (us ++ [.closing .brace])) := by
  have hclosed : Scans [' ', '\x7d'] [.closing .brace] := scans_space (scans_char rfl scans_nil)
  have hvalue := hvalue hlexical [' ', '\x7d'] _ (.cons (by decide)) hclosed
  have hset := scans_identifier hx (.cons (by decide))
    (scans_space (scans_char (c := '=') rfl (scans_space hvalue)))
  have hbody := scans_identifier hname (.cons (by decide))
    (scans_space (scans_char (c := '\x7b') rfl (scans_space hset)))
  have hall := scans_keyword .model (.cons (by decide)) (scans_space hbody)
  simp only [assignment, String.toList_append, List.append_assoc]
  exact hall

namespace File

theorem ofStream_assigned {s : Stream} {us ts : List Token} {name x : String} {e : Expr}
    (he : Stream.Rereads Stream.annotated 1 us e)
    (hs : s.tokens = .keyword .model :: .identifier name :: .opening .brace :: .identifier x ::
      .sign .equals :: (us ++ .closing .brace :: ts))
    (hts : ts = [] ∨ ts = [.terminator]) :
    ∃ m, ofStream s = ⟨none, [], [.model m], []⟩ ∧ m.Sets name x e := by
  have hskip : s.dropTerminators = ⟨(), s, s.lt_succ⟩ :=
    Stream.dropTerminators_eq (by rw [hs]; nofun)
  have hpackage : s.package = ⟨[], [], s⟩ := by
    have hnone : s.take? (.keyword .package) = none := Stream.take?_eq_none (by rw [hs]; nofun)
    unfold Stream.package
    generalize s.dropTerminators = skipped at hskip ⊢
    subst hskip
    simp only [hnone]
  have himports : s.imports = ⟨[], [], s⟩ := by
    have hnone : s.take? (.keyword .imports) = none := Stream.take?_eq_none (by rw [hs]; nofun)
    rw [Stream.imports]
    generalize s.dropTerminators = skipped at hskip ⊢
    subst hskip
    simp only [hnone]
  obtain ⟨m, hdecls, hsets⟩ := Stream.declarations_assigned he hs hts
  refine ⟨m, ?_, hsets⟩
  simp only [ofStream, hpackage, himports, hdecls, List.head?_nil, List.append_nil]

/-- **A text whose tokens are read as an expression can stand behind any variable of any model.** -/
theorem parse_assigned {name x value : String} {us : List Token} {e : Expr}
    (he : Stream.Rereads Stream.annotated 1 us e) (hvalue : Scan.Writes value.toList us)
    (hlexical : ∀ t ∈ us, t.Lexical) (hname : Token.IsName name) (hx : Token.IsName x) :
    ∃ m, parse (assignment name x value) = ⟨none, [], [.model m], []⟩ ∧ m.Sets name x e := by
  obtain ⟨hok, htokens⟩ := scans_assignment hname hx hvalue hlexical false Pos.start
  unfold parse
  have hok' : (Scan.ofText (assignment name x value)).error = none := hok
  simp only [hok']
  -- the scanner may put a terminator at the end of the text
  rcases htokens with htokens | htokens
  · exact ofStream_assigned he htokens (Or.inl rfl)
  · refine ofStream_assigned he (htokens.trans ?_) (Or.inr rfl)
    simp only [List.cons_append, List.append_assoc, List.nil_append]

/-- The text of a tree can stand there. -/
theorem parse_assignment {e : Expr} (hfits : e.Fits .annotated)
    (hlexical : ∀ t ∈ e.tokens, t.Lexical) {name x : String} (hname : Token.IsName name)
    (hx : Token.IsName x) :
    ∃ m, parse (assignment name x e.text) = ⟨none, [], [.model m], []⟩ ∧ m.Sets name x e :=
  parse_assigned hfits.rereads (Scan.writes_text e) hlexical hname hx

/-- What is read of a value is read of the file. -/
theorem mem_words_of_mem_values {f : File} {e : Expr} {w : Word} (he : e ∈ f.values)
    (hw : w ∈ e.words) : w ∈ f.words := by
  obtain ⟨d, hd, he⟩ := List.mem_flatMap.mp he
  refine List.mem_append_right _ (List.mem_flatMap.mpr ⟨d, hd, ?_⟩)
  have hmodel {m : ModelDecl} (he : e ∈ m.body.stmts.filterMap Stmt.value) : w ∈ m.words := by
    obtain ⟨stmt, hstmt, hvalue⟩ := List.mem_filterMap.mp he
    have hwords : w ∈ stmt.words := by
      rw [Stmt.words, hvalue]
      exact List.mem_append_right _ (List.mem_cons_of_mem _ hw)
    have hall : w ∈ m.body.stmts.flatMap Stmt.words := List.mem_flatMap.mpr ⟨stmt, hstmt, hwords⟩
    simp only [ModelDecl.words, List.mem_cons, List.mem_append, hall, true_or, or_true]
  cases d with
  | model m => exact List.mem_cons_of_mem _ (hmodel he)
  | interface m => exact List.mem_cons_of_mem _ (hmodel he)
  | kind k => cases he

/-- **The tokens of what was read can be written and scanned again.** -/
theorem lexical_of_mem_values {text : String} (h : (parse text).errors = []) {e : Expr}
    (he : e ∈ (parse text).values) : ∀ t ∈ e.tokens, t.Lexical := by
  intro t ht
  rcases Expr.mem_words_of_mem_tokens ht with rfl | ht
  · trivial
  · have hspells := spells_of_parse h
    have hmem := hspells.mem_of_token_mem (mem_words_of_mem_values he ht)
    obtain ⟨l, hl, rfl⟩ := List.mem_map.mp hmem
    exact Scan.lexical_of_mem hl (hspells.readable _ hmem)

/-- **What was read is read again from its text.** Where no error is found in a text, the text of
what one of its statements says is equal to a variable can stand behind any variable of any model:
no error is found there either, and what is read is the same but for where it stands. -/
theorem reread_of_parse {text : String} (h : (parse text).errors = []) {e : Expr}
    (he : e ∈ (parse text).values) {name x : String} (hname : Token.IsName name)
    (hx : Token.IsName x) :
    ∃ m, parse (assignment name x e.text) = ⟨none, [], [.model m], []⟩ ∧ m.Sets name x e :=
  parse_assignment (fits_of_mem_values he) (lexical_of_mem_values h he) hname hx

/-- A text with the body of a stock over several lines, a look-up in a table that is written out,
and a comma behind the last point. -/
def grazed : String :=
  "model pasture \x7b\n  cattle = stock \x7b\n    initial: -2 ^ (a - b - c) \"head\"\n" ++
  "    outflow: eaten(cattle, [(0, 1), (1, .5),][time - 1.]) / 3 * 2 // by wolves\n  \x7d\n\x7d"

/-- How the body of the stock is printed. -/
def grazedStock : String :=
  "stock \x7binitial: -2 ^ (a - b - c) \"head\", " ++
  "outflow: eaten(cattle, [(0, 1), (1, .5)][time - 1.]) / 3 * 2\x7d"

theorem reread_of_parse_grazed : (parse grazed).errors = [] ∧
    ∃ e ∈ (parse grazed).values, e.text = grazedStock ∧
      ∃ m, parse (assignment "main" "x" e.text) = ⟨none, [], [.model m], []⟩ ∧
        m.Sets "main" "x" e := by
  have hok : (parse grazed).errors = [] := by decide +kernel
  have hsome : ((parse grazed).values.find? fun e => e.text = grazedStock).isSome = true := by
    decide +kernel
  obtain ⟨e, hfound⟩ := Option.isSome_iff_exists.mp hsome
  have he := List.mem_of_find?_eq_some hfound
  have htext : e.text = grazedStock := by simpa using List.find?_some hfound
  exact ⟨hok, e, he, htext, reread_of_parse hok he (by decide) (by decide)⟩

end File

end StockFlow
