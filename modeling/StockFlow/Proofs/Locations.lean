import StockFlow.Proofs.Grammar.Extent
import StockFlow.Proofs.Printing
import StockFlow.Proofs.Token.Slice

/-!
# Spans delimit expressions

Every tree that is read is derived from tokens in a row, and a derivation says where the tree
stands: from the start of the first of them to the end of the last. The part of the text in between
gives the same tokens alone, and from these the same tree is read.

* `Span.Cuts` — the part of a text that a span delimits
* `File.reread_slice` — a tree is read again from its part of the text
* `File.span_delimits` — the spans of all nodes of what was read
-/

namespace StockFlow

/-- The part of a text between the offsets of a span, which are counted in bytes. -/
def Span.Cuts (span : Span) (text slice : List Char) : Prop :=
  ∃ before after, text = before ++ (slice ++ after) ∧ byteCount before = span.start.offset ∧
    byteCount (before ++ slice) = span.stop.offset

/-- A text has one part of each size. -/
theorem eq_of_byteCount_eq {cs ds cs' ds' : List Char} (h : cs ++ cs' = ds ++ ds')
    (hsize : byteCount cs = byteCount ds) : cs = ds ∧ cs' = ds' := by
  induction cs generalizing ds with
  | nil =>
    cases ds with
    | nil => exact ⟨rfl, h⟩
    | cons d ds => exact absurd hsize (Nat.ne_of_lt (byteCount_pos (List.cons_ne_nil d ds)))
  | cons c cs ih =>
    cases ds with
    | nil => exact absurd hsize.symm (Nat.ne_of_lt (byteCount_pos (List.cons_ne_nil c cs)))
    | cons d ds =>
      obtain ⟨rfl, htail⟩ := List.cons.inj h
      obtain ⟨rfl, hrest⟩ := ih htail (Nat.add_left_cancel hsize)
      exact ⟨rfl, hrest⟩

/-- A span delimits one part of a text. -/
theorem Span.Cuts.unique {span : Span} {text slice slice' : List Char} (h : span.Cuts text slice)
    (h' : span.Cuts text slice') : slice = slice' := by
  obtain ⟨before, after, rfl, hstart, hstop⟩ := h
  obtain ⟨before', after', htext, hstart', hstop'⟩ := h'
  obtain ⟨rfl, hrest⟩ := eq_of_byteCount_eq htext (hstart.trans hstart'.symm)
  have hsize : byteCount slice = byteCount slice' := by
    rw [byteCount_append] at hstop hstop'
    omega
  exact (eq_of_byteCount_eq hrest hsize).1

/-- Tokens in a row are what the part of the text gives that their span delimits. -/
theorem Tiling.exists_cuts {text : List Char} {ls ls' : List Lexeme} {span : Span}
    (h : Tiling false Pos.start text ls') (hls : ls <:+: ls') (hspan : span.Spans ls)
    (hlexical : ∀ l ∈ ls, l.token.Lexical) :
    ∃ slice, span.Cuts text slice ∧ Scan.Writes slice (ls.map Lexeme.token) := by
  obtain ⟨first, hfirst, hwritten, hstart⟩ := hspan.first
  obtain ⟨last, hlast, hwritten', hstop⟩ := hspan.last
  obtain ⟨here, rfl⟩ := List.head?_eq_some_iff.mp hfirst
  obtain ⟨earlier, later, rfl⟩ := hls
  rw [List.append_assoc] at h
  obtain ⟨before, slice, rest, rfl, hbefore, hslice⟩ := h.exists_slice hlexical hwritten
    fun l hl => Option.mem_unique hlast hl ▸ hwritten'
  refine ⟨slice, ⟨before, rest, rfl, ?_, ?_⟩, fun _ cs more hd hcs ended =>
    (hslice ended).scans cs more hd hcs⟩
  · rw [← hstart, hbefore, Pos.offset_afterAll]
    exact (Nat.zero_add _).symm
  · rw [← hstop, (hslice true).stop last hlast, ← Pos.afterAll_append, Pos.offset_afterAll]
    exact (Nat.zero_add _).symm

namespace File

variable {text : String}

/-- **A tree that is derived from tokens of a text is read again from its part of the text.** -/
theorem reread_slice (h : (parse text).errors = []) {ls : List Lexeme} {e : Expr}
    (hls : ls <:+: (Scan.ofText text).lexemes) (he : e.Derives .annotated ls) :
    ∃ slice, e.span.Cuts text.toList slice ∧ ∀ name x, Token.IsName name → Token.IsName x →
      ∃ m, parse (assignment name x (String.ofList slice)) = ⟨none, [], [.model m], []⟩ ∧
        m.Sets name x e := by
  have hread := readable_of_parse h
  have hok := (scanned_of_parse h).1
  have hapart := (Scan.layout_ofText hok hread).apart
  have htiling := Scan.tiling_ofText hok fun l hl => Token.isPlain_of_readable (hread l hl)
  have hlexical : ∀ l ∈ ls, l.token.Lexical := fun l hl =>
    Scan.lexical_of_mem (hls.subset hl) (hread l (hls.subset hl))
  obtain ⟨slice, hcuts, hwrites⟩ :=
    htiling.exists_cuts hls (he.spans (hapart.sublist hls.sublist)) hlexical
  refine ⟨slice, hcuts, fun name x hname hx => ?_⟩
  rw [← String.toList_ofList (l := slice)] at hwrites
  exact parse_assigned he.rereads hwrites (List.forall_mem_map.mpr hlexical) hname hx

/-- **Spans delimit exactly their expression.** In a text without errors, take any node of what a
statement says is equal to its variable. Unless the node is a key with its value or a point of a
table, the part of the text that its span delimits can stand behind any variable of any model: no
error is found there, and what is read is the same but for where it stands. The children of the node
stand in it, in order and without overlap. -/
theorem span_delimits (h : (parse text).errors = []) {e x : Expr} (he : e ∈ (parse text).values)
    (hx : x.IsNodeOf e) :
    (x.isMember = false → (∃ slice, x.span.Cuts text.toList slice) ∧
      ∀ slice, x.span.Cuts text.toList slice → ∀ name y, Token.IsName name → Token.IsName y →
        ∃ m, parse (assignment name y (String.ofList slice)) = ⟨none, [], [.model m], []⟩ ∧
          m.Sets name y x) ∧
    x.Nested := by
  obtain ⟨ls', hls', he⟩ := derives_of_mem_values he
  obtain ⟨k, ls, hls, hx⟩ := hx.exists_derives he
  have hls := hls.trans hls'
  have hapart := (Scan.layout_ofText (scanned_of_parse h).1 (readable_of_parse h)).apart
  refine ⟨fun hmember => ?_, hx.nested (hapart.sublist hls.sublist)⟩
  obtain ⟨slice, hcuts, hreread⟩ := reread_slice h hls (hx.annotated hmember)
  exact ⟨⟨slice, hcuts⟩, fun slice' hcuts' => hcuts.unique hcuts' ▸ hreread⟩

/-- What flows out of a tank, over several lines with comments between them. -/
def leak : String :=
  "-(crack + // in the wall\n      drip[time]) * /* per\n      day */ [(0, 1), (1, .5),][2]"

/-- A text with this flow in the body of a stock. -/
def tank : String :=
  "model tank \x7b\n  level = stock \x7b\n    initial: 10 \"l\"\n    outflow: " ++
    (leak ++ "\n  \x7d\n\x7d\n")

theorem span_delimits_leak : (parse tank).errors = [] ∧
    ∃ e ∈ (parse tank).values, ∃ x, x.IsNodeOf e ∧ x.isMember = false ∧
      x.span.Cuts tank.toList leak.toList ∧
      (∃ m, parse (assignment "main" "flow_out" leak) = ⟨none, [], [.model m], []⟩ ∧
        m.Sets "main" "flow_out" x) ∧ x.Nested := by
  have hok : (parse tank).errors = [] := by decide +kernel
  -- what stands in the elements of the body of the stock
  have hsome : (((parse tank).values.flatMap fun e => e.children.flatMap Expr.children).find?
      fun x => !x.isMember && x.span.start.offset = 64 && x.span.stop.offset = 150).isSome = true :=
    by decide +kernel
  obtain ⟨x, hfound⟩ := Option.isSome_iff_exists.mp hsome
  obtain ⟨e, he, hx⟩ := List.mem_flatMap.mp (List.mem_of_find?_eq_some hfound)
  obtain ⟨element, helement, hx⟩ := List.mem_flatMap.mp hx
  have hplace : (x.isMember = false ∧ x.span.start.offset = 64) ∧ x.span.stop.offset = 150 := by
    simpa using List.find?_some hfound
  obtain ⟨⟨hmember, hstart⟩, hstop⟩ := hplace
  have hcuts : x.span.Cuts tank.toList leak.toList := by
    refine ⟨_, _, String.toList_append.trans (congrArg _ String.toList_append), ?_, ?_⟩
    · rw [hstart]
      decide +kernel
    · rw [hstop, byteCount_append]
      decide +kernel
  have hnode : x.IsNodeOf e := .tail (.single helement) hx
  obtain ⟨hdelimits, hnested⟩ := span_delimits hok he hnode
  obtain ⟨m, hparse, hsets⟩ :=
    (hdelimits hmember).2 _ hcuts "main" "flow_out" (by decide) (by decide)
  rw [String.ofList_toList] at hparse
  exact ⟨hok, e, he, x, hnode, hmember, hcuts, ⟨m, hparse, hsets⟩, hnested⟩

end File

end StockFlow
