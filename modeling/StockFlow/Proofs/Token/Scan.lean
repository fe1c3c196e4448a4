import StockFlow.Proofs.Token.Layout
import StockFlow.Proofs.Token.Numeral

/-!
# The scanner takes a text stretch by stretch

The scanner loses characters behind digits that are not ASCII, but then it gives a number token that
is not a numeral. Otherwise nothing is lost.

* `ScanStep.Moves`, `Scan.step_moves` — what one step of the scanner does
* `Scan.step_follows` — one step of the scanner takes one stretch of the text
* `Scan.layout_ofText` — the tokens of a text lie in it, if all numbers among them are numerals
-/

namespace StockFlow

/-! ## Reading on in a text -/

namespace Cursor

/-- Reading `used` leads from one place to another. -/
structure Reads (cur next : Cursor) (used : List Char) : Prop where
  rest : cur.rest = used ++ next.rest
  pos : next.pos = cur.pos.afterAll used

theorem Reads.trans {a b c : Cursor} {cs ds : List Char} (h : a.Reads b cs) (h' : b.Reads c ds) :
    a.Reads c (cs ++ ds) where
  rest := by rw [h.rest, h'.rest, List.append_assoc]
  pos := by rw [h'.pos, h.pos, Pos.afterAll_append]

theorem reads_drop (cur : Cursor) (n : Nat) : cur.Reads (cur.drop n) (cur.rest.take n) :=
  ⟨(List.take_append_drop n cur.rest).symm, rfl⟩

theorem reads_dropWhile (cur : Cursor) (p : Char → Bool) :
    cur.Reads (cur.dropWhile p) (cur.rest.takeWhile p) :=
  ⟨List.takeWhile_append_dropWhile.symm, rfl⟩

/-- Where a character stands next, it is read by dropping it. -/
theorem reads_char {cur : Cursor} {c : Char} (h : cur.rest.head? = some c) :
    cur.Reads (cur.drop 1) [c] := by
  obtain ⟨rest, hrest⟩ := List.head?_eq_some_iff.mp h
  have hreads := cur.reads_drop 1
  rwa [hrest] at hreads

/-- The text between two places is one stretch. -/
def Passes (cur next : Cursor) (here : List Lexeme) : Prop :=
  ∃ used, cur.Reads next used ∧ Stretch cur.pos used here

/-- A token whose span ends where reading goes on. -/
theorem Reads.passes {cur next : Cursor} {used : List Char} {t : Token} (h : cur.Reads next used)
    (ht : t.IsWritten used) (hne : used ≠ []) : cur.Passes next [⟨t, cur.pos, next.pos⟩] :=
  ⟨used, h, .token ht hne (by rw [h.pos, Pos.offset_afterAll])⟩

theorem Passes.layout {cur next : Cursor} {here ls : List Lexeme} (h : cur.Passes next here)
    (hnext : Layout next.pos next.rest ls) : Layout cur.pos cur.rest (here ++ ls) := by
  obtain ⟨used, hreads, hstretch⟩ := h
  rw [hreads.rest]
  exact .stretch hstretch (hreads.pos ▸ hnext)

end Cursor

/-- A step takes one stretch of the text, unless it gives a number that is not a numeral. -/
def ScanStep.Follows (cur : Cursor) : ScanStep → Prop
  | .lexeme l next => l.token.Readable → cur.Passes next [l]
  | .gap next => cur.Passes next []
  | .error _ => True

/-! ## Where tokens and gaps end -/

/-- A number is plain text. So is every other token. -/
def Token.IsPlain : Token → Prop
  | number text => Plain text.toList
  | _ => True

theorem Token.isPlain_of_readable {t : Token} (h : t.Readable) : t.IsPlain := by
  cases t with
  | number text => exact Decimal.Number.plain_of_parse? h
  | _ => trivial

/-- A token goes no further in front of some text. -/
def Token.StopsAt : Token → List Char → Prop
  | keyword _, cs | identifier _, cs => ∀ c ∈ cs.head?, ¬Text.continuesIdentifier c = true
  | number text, cs =>
    (text.toList ++ cs).take (Scan.numeralLength (text.toList ++ cs)) = text.toList
  | sign .slash, cs => ∀ c ∈ cs.head?, c ≠ '/' ∧ c ≠ '*'
  | _, _ => True

/-- A comment on a line goes no further in front of some text. -/
def GapStops (gap rest : List Char) : Prop :=
  ∀ cs, gap = '/' :: '/' :: cs → ∀ c ∈ rest.head?, c = '\n'

/-! ## The steps of the scanner -/

/-- **What a step of the scanner does,** where `ended` says whether a statement may end here. It
takes a gap, which holds no line end if a statement may end, or a token as it is written, or a gap
whose first line end ends the statement. Or it finds an error. Only behind a number that is not
plain may characters be lost. -/
inductive ScanStep.Moves (ended : Bool) (cur : Cursor) : ScanStep → Prop
  | gap {used : List Char} {next : Cursor} : cur.Reads next used → Gap used →
      GapStops used next.rest → (ended = true → '\n' ∉ used) → Moves ended cur (.gap next)
  | token {used : List Char} {t : Token} {next : Cursor} : cur.Reads next used →
      t.IsWritten used → used ≠ [] → used ≠ ['\n'] → t.IsPlain → t.StopsAt next.rest →
      Moves ended cur (.lexeme ⟨t, cur.pos, next.pos⟩ next)
  | lineEnd {before after : List Char} {next : Cursor} : ended = true →
      cur.Reads next (before ++ '\n' :: after) → Gap (before ++ '\n' :: after) → '\n' ∉ before →
      Moves ended cur
        (.lexeme ⟨.terminator, cur.pos.afterAll before, (cur.pos.afterAll before).shift 1⟩ next)
  | error {e : SyntaxError} : e.pos = cur.pos → Moves ended cur (.error e)
  | lossy {text : List Char} {span : Span} {next : Cursor} {c : Char} : c ∈ cur.rest →
      Text.isDecimalDigit c = true → 128 ≤ c.toNat → ¬(Token.number (String.ofList text)).IsPlain →
      Moves ended cur (.lexeme ⟨.number (String.ofList text), span⟩ next)

namespace Scan

variable {ended : Bool}

/-- A token whose text does not start with a line end. -/
theorem moves_token {cur next : Cursor} {used : List Char} {t : Token} (h : cur.Reads next used)
    (ht : t.IsWritten used) (hne : used ≠ []) (hline : cur.rest.head? ≠ some '\n')
    (hplain : t.IsPlain) (hstops : t.StopsAt next.rest) :
    (ScanStep.lexeme ⟨t, cur.pos, next.pos⟩ next).Moves ended cur := by
  refine .token h ht hne ?_ hplain hstops
  rintro rfl
  exact hline (by rw [h.rest]; rfl)

theorem spelling_of_ofSpelling? {word : String} {k : Keyword}
    (h : Keyword.ofSpelling? word = some k) : k.spelling = word := by
  unfold Keyword.ofSpelling? at h
  simpa using List.find?_some h

theorem word_moves {cur : Cursor} (hne : cur.rest.takeWhile Text.continuesIdentifier ≠ [])
    (hline : cur.rest.head? ≠ some '\n') : (word cur).Moves ended cur := by
  have hstops : ∀ c ∈ (cur.rest.dropWhile Text.continuesIdentifier).head?,
      ¬Text.continuesIdentifier c = true := fun c hc hcontinues => by
    have hhead := List.head?_dropWhile_not Text.continuesIdentifier cur.rest
    rw [hc] at hhead
    exact absurd hcontinues (by simpa using hhead)
  unfold word wordToken
  simp only
  split
  · next k hk =>
    refine moves_token (cur.reads_dropWhile _) ?_ hne hline trivial hstops
    show _ = k.spelling.toList
    rw [spelling_of_ofSpelling? hk, String.toList_ofList]
  · exact moves_token (cur.reads_dropWhile _) String.toList_ofList.symm hne hline trivial hstops

theorem quoted_moves {cur : Cursor} {quote : Char} {make : String → Token} {fault : SyntaxFault}
    (hcur : cur.rest.head? = some quote) (hline : cur.rest.head? ≠ some '\n')
    (hmake : ∀ content, (make content).IsWritten (quote :: content.toList ++ [quote]) ∧
      (make content).IsPlain ∧ ∀ cs, (make content).StopsAt cs) :
    (quoted cur quote make fault).Moves ended cur := by
  have hwritten (content : List Char) :
      (make (String.ofList content)).IsWritten (quote :: content ++ [quote]) := by
    have h := (hmake (String.ofList content)).1
    rwa [String.toList_ofList] at h
  unfold quoted
  simp only
  split
  · next hquote =>
    have hreads := ((Cursor.reads_char hcur).trans (Cursor.reads_dropWhile _ _)).trans
      (Cursor.reads_char hquote)
    exact moves_token hreads (hwritten _) (by simp) hline (hmake _).2.1
      ((hmake _).2.2 _)
  · exact .error rfl

/-- A plain numeral is as long as it has bytes, so nothing behind it is lost. -/
theorem number_moves {cur : Cursor} (hne : cur.rest.take (numeralLength cur.rest) ≠ [])
    (hline : cur.rest.head? ≠ some '\n') : (number cur).Moves ended cur := by
  have hmarks := (isNumeral_take cur.rest).inNumeral
  unfold number
  generalize htext : cur.rest.take (numeralLength cur.rest) = text at hne hmarks ⊢
  by_cases hplain : Plain text
  · have hreads : cur.Reads (cur.drop (byteCount text)) text := by
      have h := cur.reads_drop (byteCount text)
      have htake : cur.rest.take text.length = text := by
        rw [← List.take_append_drop (numeralLength cur.rest) cur.rest, htext, List.take_left]
      rw [hplain.byteCount_eq, htake] at h
      rwa [hplain.byteCount_eq]
    have hsame : (cur.drop (byteCount text)).pos.line = cur.pos.line := by
      rw [hreads.pos, hplain.line_afterAll]
    simp only [if_pos hsame, ← hreads.pos]
    refine moves_token hreads String.toList_ofList.symm hne hline ?_ ?_
    · rwa [Token.IsPlain, String.toList_ofList]
    rw [Token.StopsAt, String.toList_ofList, ← hreads.rest, htext]
  · have hwide : ∃ c ∈ text, ¬(c.utf8Size = 1 ∧ c ≠ '\n') := by
      simpa only [Plain, Classical.not_forall, exists_prop] using hplain
    obtain ⟨c, hc, hwide⟩ := hwide
    have hdigit : Text.isDecimalDigit c = true ∧ 128 ≤ c.toNat := by
      refine ⟨?_, ?_⟩
      · refine Classical.byContradiction fun hnot => hwide ?_
        exact plain_of_inNumeral (hmarks c hc) fun h => absurd h hnot
      · refine Nat.le_of_not_lt fun hlt => hwide ?_
        exact plain_of_inNumeral (hmarks c hc) fun _ => hlt
    have hmem : c ∈ cur.rest := List.mem_of_mem_take (htext ▸ hc)
    exact .lossy hmem hdigit.1 hdigit.2 (by rwa [Token.IsPlain, String.toList_ofList])

/-- The first line end in a text that starts at `pos`. -/
def lineEnd? (pos : Pos) (cs : List Char) : Option Span :=
  if '\n' ∈ cs then
    let p := pos.afterAll (cs.takeWhile (· ≠ '\n'))
    some ⟨p, p.shift 1⟩
  else none

theorem lineEnd?_cons (pos : Pos) (c : Char) (cs : List Char) :
    lineEnd? pos (c :: cs) = if c = '\n' then some ⟨pos, pos.shift 1⟩
      else lineEnd? (pos.after c) cs := by
  unfold lineEnd?
  by_cases hc : c = '\n'
  · simp [hc]
  · simp [hc, Ne.symm hc]

theorem lineEnd?_append {pos : Pos} {cs ds : List Char} (h : '\n' ∉ cs) :
    lineEnd? pos (cs ++ ds) = lineEnd? (pos.afterAll cs) ds := by
  induction cs generalizing pos with
  | nil => rfl
  | cons c cs ih =>
    obtain ⟨hc, hcs⟩ := List.ne_and_not_mem_of_not_mem_cons h
    rw [List.cons_append, lineEnd?_cons, if_neg (Ne.symm hc), ih hcs, Pos.afterAll_cons]

theorem lineEnd?_eq_none {pos : Pos} {cs : List Char} : lineEnd? pos cs = none ↔ '\n' ∉ cs := by
  unfold lineEnd?
  split <;> simp_all

theorem lineEnd?_eq_some {pos : Pos} {cs : List Char} {span : Span}
    (h : lineEnd? pos cs = some span) : ∃ before after, cs = before ++ '\n' :: after ∧
      '\n' ∉ before ∧ span = ⟨pos.afterAll before, (pos.afterAll before).shift 1⟩ := by
  by_cases hmem : '\n' ∈ cs
  · obtain ⟨before, after, rfl, hbefore⟩ := List.eq_append_cons_of_mem hmem
    refine ⟨before, after, rfl, hbefore, ?_⟩
    rw [lineEnd?_append hbefore, lineEnd?_cons, if_pos rfl] at h
    exact (Option.some.inj h).symm
  · rw [lineEnd?_eq_none.mpr hmem] at h
    cases h

/-- Up to its end a comment has no mark of an end, and its first line end is found. -/
theorem commentEnd?_eq_some {newline : Option Span} {cs : List Char} {pos : Pos} {r : CommentEnd}
    (h : commentEnd? newline cs pos = some r) :
    ∃ body, Cursor.Reads ⟨cs, pos⟩ r.next (body ++ ['*', '/']) ∧ ¬['*', '/'] <:+: body ∧
      r.newline = (newline <|> lineEnd? pos body) := by
  fun_induction commentEnd? newline cs pos with
  | case1 => cases h
  | case2 newline rest pos =>
    cases h
    exact ⟨[], ⟨rfl, rfl⟩, by simp, by cases newline <;> rfl⟩
  | case3 newline c rest pos hopen here ih =>
    obtain ⟨body, hreads, hinside, hnewline⟩ := ih h
    refine ⟨c :: body, ⟨congrArg _ hreads.rest, hreads.pos⟩, ?_, ?_⟩
    · rw [List.infix_cons_iff, not_or]
      refine ⟨?_, hinside⟩
      intro hprefix
      obtain ⟨rfl, tail, rfl⟩ := List.cons_prefix_cons.mp hprefix
      exact hopen _ rfl hreads.rest
    · rw [hnewline, lineEnd?_cons]
      by_cases hc : c = '\n'
      · cases newline <;> simp [here, hc]
      · cases newline <;> simp [here, hc]

theorem blockComment_moves {pos : Pos} {rest : List Char} :
    (blockComment ended ⟨'/' :: '*' :: rest, pos⟩).Moves ended ⟨'/' :: '*' :: rest, pos⟩ := by
  have hopened := Cursor.reads_drop ⟨'/' :: '*' :: rest, pos⟩ 2
  unfold blockComment
  simp only
  split
  · exact .error rfl
  · next newline h =>
    obtain ⟨body, hreads, hinside, hnewline⟩ := commentEnd?_eq_some h
    obtain ⟨before, after, rfl, hbefore, rfl⟩ := lineEnd?_eq_some hnewline.symm
    have hgap := Gap.block hinside
    split
    · next hended =>
      have hall : '/' :: '*' :: (before ++ '\n' :: after ++ ['*', '/']) =
          ('/' :: '*' :: before) ++ '\n' :: (after ++ ['*', '/']) := by simp
      have hreads := hopened.trans hreads
      exact @ScanStep.Moves.lineEnd _ _ ('/' :: '*' :: before) _ _ hended (hall ▸ hreads)
        (hall ▸ hgap) (by simpa using hbefore)
    · next hended => exact .gap (hopened.trans hreads) hgap nofun fun h => absurd h hended
  · next h =>
    obtain ⟨body, hreads, hinside, hnewline⟩ := commentEnd?_eq_some h
    have hbody : '\n' ∉ body := lineEnd?_eq_none.mp hnewline.symm
    exact .gap (hopened.trans hreads) (.block hinside) nofun fun _ => by simpa using hbody

/-- A token of one character. -/
theorem char_moves {pos : Pos} {c : Char} {rest : List Char} {t : Token} (ht : t.IsWritten [c])
    (hc : c.utf8Size = 1) (hline : c ≠ '\n') (hplain : t.IsPlain) (hstops : t.StopsAt rest) :
    (ScanStep.lexeme ⟨t, pos, pos.shift 1⟩ (Cursor.drop ⟨c :: rest, pos⟩ 1)).Moves ended
      ⟨c :: rest, pos⟩ := by
  have hshift : pos.shift 1 = (Cursor.drop ⟨c :: rest, pos⟩ 1).pos := by
    show pos.shift 1 = pos.after c
    rw [Pos.after, if_neg hline, hc]
    rfl
  rw [hshift]
  exact moves_token (Cursor.reads_char rfl) ht (by simp) (by simpa using hline)
    hplain hstops

theorem lineEnd_moves {pos : Pos} {rest : List Char} :
    (lineEnd ended ⟨'\n' :: rest, pos⟩).Moves ended ⟨'\n' :: rest, pos⟩ := by
  have hgap : Gap ['\n'] := .blank (by decide)
  unfold lineEnd
  split
  · next hended =>
    exact @ScanStep.Moves.lineEnd _ _ [] _ _ hended (Cursor.reads_char rfl) hgap nofun
  · next hended => exact .gap (Cursor.reads_char rfl) hgap nofun fun h => absurd h hended

theorem slash_moves {pos : Pos} {rest : List Char} :
    (slash ended ⟨'/' :: rest, pos⟩).Moves ended ⟨'/' :: rest, pos⟩ := by
  unfold slash
  split
  · next tail htail =>
    obtain rfl : rest = '/' :: tail := htail
    have hinside : '\n' ∉ tail.takeWhile (· ≠ '\n') := fun hmem => by
      simpa using List.all_eq_true.mp List.all_takeWhile _ hmem
    have hstops : ∀ c ∈ (tail.dropWhile (· ≠ '\n')).head?, c = '\n' := fun c hc => by
      have hhead := List.head?_dropWhile_not (· ≠ '\n') tail
      rw [hc] at hhead
      simpa using hhead
    exact .gap (Cursor.reads_dropWhile _ _) (.line hinside) (fun _ _ => hstops) fun _ => by
      simpa using hinside
  · next tail htail =>
    obtain rfl : rest = '*' :: tail := htail
    exact blockComment_moves
  · next hline hblock =>
    refine char_moves rfl (by decide) (by decide) trivial fun c hc => ?_
    obtain ⟨tail, rfl⟩ := List.head?_eq_some_iff.mp hc
    exact ⟨fun h => hline tail (h ▸ rfl), fun h => hblock tail (h ▸ rfl)⟩

theorem isWritten_of_single? {c : Char} {t : Token} (h : single? c = some t) :
    t.IsWritten [c] ∧ c.utf8Size = 1 ∧ t.IsPlain ∧ ∀ cs, t.StopsAt cs := by
  unfold single? at h
  split at h <;> cases h
  case h_8 => exact ⟨Or.inl rfl, by decide, trivial, fun _ => trivial⟩
  all_goals exact ⟨rfl, by decide, trivial, fun _ => trivial⟩

/-- **One step of the scanner** takes a gap, a token or a line end, or finds an error. -/
theorem step_moves {pos : Pos} {c : Char} {rest : List Char} :
    (step ended pos c rest).Moves ended ⟨c :: rest, pos⟩ := by
  by_cases hc : c = '\n'
  · subst hc
    exact lineEnd_moves
  have hline : (c :: rest).head? ≠ some '\n' := by simpa using hc
  unfold step
  simp only
  split
  · next h => exact absurd h hc
  split
  · next h => subst h; exact slash_moves
  split
  · next h => subst h; exact quoted_moves rfl hline fun _ => ⟨rfl, trivial, fun _ => trivial⟩
  split
  · next h => subst h; exact quoted_moves rfl hline fun _ => ⟨rfl, trivial, fun _ => trivial⟩
  split
  · next h =>
    refine word_moves ?_ hline
    simp [Text.continues_of_starts h]
  split
  · next h =>
    refine number_moves ?_ hline
    rw [ne_eq, List.take_eq_nil_iff, not_or]
    exact ⟨Nat.ne_of_gt (numeralLength_pos h), List.cons_ne_nil c rest⟩
  split
  · next h =>
    refine .gap (Cursor.reads_char rfl) (.blank h) nofun fun _ => ?_
    simpa using Ne.symm hc
  · split
    · next t ht =>
      obtain ⟨hwritten, hsize, hplain, hstops⟩ := isWritten_of_single? ht
      exact char_moves hwritten hsize hc hplain (hstops rest)
    · exact .error rfl

/-! ## Stretch by stretch -/

theorem follows_of_moves {cur : Cursor} {r : ScanStep} (h : r.Moves ended cur) :
    r.Follows cur := by
  cases h with
  | gap hreads hgap => exact ⟨_, hreads, .gap hgap⟩
  | token hreads hwritten hne => exact fun _ => hreads.passes hwritten hne
  | lineEnd _ hreads hgap => exact fun _ => ⟨_, hreads, .lineEnd hgap rfl⟩
  | error => trivial
  | lossy _ _ _ hwide => exact fun hread => absurd (Token.isPlain_of_readable hread) hwide

/-- **One step of the scanner takes one stretch of the text,** unless it gives a number that is not
a numeral. -/
theorem step_follows {pos : Pos} {c : Char} {rest : List Char} :
    (step ended pos c rest).Follows ⟨c :: rest, pos⟩ :=
  follows_of_moves step_moves

theorem layout_scanFrom {cur : Cursor} (hok : (scanFrom ended cur).error = none)
    (hread : ∀ l ∈ (scanFrom ended cur).lexemes, l.token.Readable) :
    Layout cur.pos cur.rest (scanFrom ended cur).lexemes := by
  fun_induction scanFrom ended cur with
  | case1 => exact .textEnd
  | case2 => exact .done
  | case3 ended c rest pos l next hstep ih =>
    have hfollows := @step_follows ended pos c rest
    rw [hstep] at hfollows
    obtain ⟨hl, hmore⟩ := List.forall_mem_cons.mp hread
    exact (hfollows hl).layout (ih hok hmore)
  | case4 ended c rest pos next hstep ih =>
    have hfollows := @step_follows ended pos c rest
    rw [hstep] at hfollows
    exact hfollows.layout (ih hok hread)
  | case5 => cases hok

/-- **The tokens of a text lie in it,** if all numbers among them are numerals. -/
theorem layout_ofText {text : String} (hok : (ofText text).error = none)
    (hread : ∀ l ∈ (ofText text).lexemes, l.token.Readable) :
    Layout Pos.start text.toList (ofText text).lexemes :=
  layout_scanFrom hok hread

end Scan

end StockFlow
