import StockFlow.Proofs.Token.Rescan
import StockFlow.Proofs.Token.Tiling

/-!
# Stretches of a text are scanned like the text

From the start of a token to the end of another one a text gives the same tokens wherever it stands,
and also the terminators that were put in where lines end in between.

* `Scan.scanFrom_gap`, `Scan.scanFrom_lineEnd` — what is done with the text between tokens
* `Scan.Slice` — a slice of a text that ends with the last of some tokens, which it gives
* `Tiling.exists_slice` — the slice of tokens that stand in a row
-/

namespace StockFlow

/-- White space starts no token and no comment. -/
theorem Text.starts_nothing_of_isBlank {c : Char} (h : isBlank c = true) :
    startsIdentifier c = false ∧ c.isDigit = false ∧ c ∉ ['.', '/', '"', '\x60'] := by
  have hall : ∀ r ∈ blankRanges, ∀ n ∈ List.range' r.1 (r.2 + 1 - r.1),
      startsIdentifier (Char.ofNat n) = false ∧ (Char.ofNat n).isDigit = false ∧
        Char.ofNat n ∉ ['.', '/', '"', '\x60'] := by
    decide +kernel
  obtain ⟨r, hr, hfirst, hlast⟩ := Ranges.holds_iff.mp h
  have hc := hall r hr c.toNat (List.mem_range'_1.mpr (by omega))
  rwa [Char.ofNat_toNat] at hc

namespace Scan

variable {ended : Bool} {pos : Pos} {used rest : List Char} {ts : List Token}

/-! ## Between tokens -/

/-- A comment ends at the first mark of an end. -/
theorem commentEnd?_append {newline : Option Span} {body : List Char}
    (h : ¬['*', '/'] <:+: body) : ∃ next : Cursor, next.rest = rest ∧
      commentEnd? newline (body ++ '*' :: '/' :: rest) pos =
        some ⟨next, newline <|> lineEnd? pos body⟩ := by
  induction body generalizing newline pos with
  | nil => exact ⟨⟨rest, _⟩, rfl, by cases newline <;> rfl⟩
  | cons c body ih =>
    rw [List.infix_cons_iff, not_or] at h
    obtain ⟨next, hnext, hend⟩ :=
      @ih (pos.after c) (newline <|> if c = '\n' then some ⟨pos, pos.shift 1⟩ else none) h.2
    refine ⟨next, hnext, ?_⟩
    have hopen : ∀ tail, c = '*' → body ++ '*' :: '/' :: rest = '/' :: tail → False := by
      rintro tail rfl heq
      cases body with
      | nil => cases heq
      | cons d body =>
        obtain rfl := (List.cons.inj heq).1
        exact h.1 ⟨body, rfl⟩
    rw [List.cons_append, commentEnd?.eq_3 _ _ _ _ hopen, hend, lineEnd?_cons]
    by_cases hc : c = '\n'
    · cases newline <;> simp [hc]
    · cases newline <;> simp [hc]

theorem step_blank {c : Char} (hc : Text.isBlank c = true) (hline : c ≠ '\n') :
    step ended pos c rest = .gap ⟨rest, pos.after c⟩ := by
  obtain ⟨hword, hdigit, hmark⟩ := Text.starts_nothing_of_isBlank hc
  simp only [List.mem_cons, List.not_mem_nil, or_false, not_or] at hmark
  obtain ⟨hpoint, hslash, hquote, htick⟩ := hmark
  simp only [step, if_neg hline, if_neg hslash, if_neg hquote, if_neg htick, hword, startsNumber,
    hdigit, decide_eq_false hpoint, hc, Bool.false_and, Bool.or_self, Bool.false_eq_true, if_false,
    if_true]
  rfl

/-- What a block comment does depends on the first line end in it. -/
theorem step_block {body : List Char} (h : ¬['*', '/'] <:+: body) :
    ∃ next : Cursor, next.rest = rest ∧
      step ended pos '/' ('*' :: (body ++ ['*', '/']) ++ rest) =
        match lineEnd? ((pos.after '/').after '*') body with
        | some newline => if ended then .lexeme ⟨.terminator, newline⟩ next else .gap next
        | none => .gap next := by
  obtain ⟨next, hnext, hend⟩ :=
    @commentEnd?_append ((pos.after '/').after '*') rest none body h
  refine ⟨next, hnext, ?_⟩
  have hstep : step ended pos '/' ('*' :: (body ++ ['*', '/']) ++ rest) =
      blockComment ended ⟨'/' :: '*' :: (body ++ ['*', '/'] ++ rest), pos⟩ := rfl
  have hbody : (Cursor.drop ⟨'/' :: '*' :: (body ++ ['*', '/'] ++ rest), pos⟩ 2) =
      ⟨body ++ '*' :: '/' :: rest, (pos.after '/').after '*'⟩ := by
    simp [Cursor.drop]
  rw [hstep, blockComment]
  simp only [hbody, hend]
  cases lineEnd? ((pos.after '/').after '*') body <;> rfl

/-- **A gap is passed over** if no statement ends in it. -/
theorem scanFrom_gap (hgap : Gap used) (hstops : GapStops used rest)
    (hline : ended = true → '\n' ∉ used) :
    ∃ next : Cursor, next.rest = rest ∧
      scanFrom ended ⟨used ++ rest, pos⟩ = scanFrom ended next := by
  cases hgap with
  | @blank c hc =>
    refine ⟨⟨rest, pos.after c⟩, rfl, scanFrom_of_gap ?_⟩
    by_cases hnewline : c = '\n'
    · obtain rfl : ended = false := by
        cases ended with
        | false => rfl
        | true => exact absurd (hnewline ▸ List.mem_singleton_self c) (hline rfl)
      subst hnewline
      rfl
    · exact step_blank hc hnewline
  | @line cs hcs =>
    have hinside : ∀ c ∈ '/' :: '/' :: cs, decide (c ≠ '\n') = true := by
      have hne : ∀ c ∈ cs, c ≠ '\n' := fun c hc h => hcs (h ▸ hc)
      simpa using hne
    have hend : ∀ c ∈ rest.head?, ¬decide (c ≠ '\n') = true := by
      simpa using hstops cs rfl
    obtain ⟨-, hdrop⟩ := takeWhile_append_of_head hinside hend
    exact ⟨_, hdrop, scanFrom_of_gap (c := '/') rfl⟩
  | @block body hbody =>
    obtain ⟨next, hnext, hstep⟩ := @step_block ended pos rest body hbody
    refine ⟨next, hnext, scanFrom_of_gap (c := '/') (hstep.trans ?_)⟩
    cases ended with
    | false => cases lineEnd? ((pos.after '/').after '*') body <;> rfl
    | true =>
      have hnone : '\n' ∉ body := fun hmem => hline rfl (by simp [hmem])
      rw [lineEnd?_eq_none.mpr hnone]

/-- **The first line end in a gap ends a statement.** -/
theorem scanFrom_lineEnd (hgap : Gap used) (hline : '\n' ∈ used) :
    ∃ (span : Span) (next : Cursor), next.rest = rest ∧
      scanFrom true ⟨used ++ rest, pos⟩ = cons ⟨.terminator, span⟩ (scanFrom false next) := by
  cases hgap with
  | @blank c =>
    obtain rfl := List.mem_singleton.mp hline
    exact ⟨_, ⟨rest, _⟩, rfl, scanFrom_of_lexeme (c := '\n') rfl⟩
  | @line cs hcs => exact absurd (by simpa using hline) hcs
  | @block body hbody =>
    obtain ⟨next, hnext, hstep⟩ := @step_block true pos rest body hbody
    have hmem : '\n' ∈ body := by simpa using hline
    obtain ⟨span, hspan⟩ := Option.ne_none_iff_exists'.mp
      (fun h => lineEnd?_eq_none.mp h hmem : lineEnd? ((pos.after '/').after '*') body ≠ none)
    rw [hspan] at hstep
    exact ⟨span, next, hnext, scanFrom_of_lexeme (c := '/') hstep⟩

theorem scansFrom_gap (hgap : Gap used) (hstops : GapStops used rest)
    (hline : ended = true → '\n' ∉ used) (h : ScansFrom ended rest ts) :
    ScansFrom ended (used ++ rest) ts := by
  intro pos
  obtain ⟨next, rfl, hscan⟩ := @scanFrom_gap ended pos used rest hgap hstops hline
  rw [hscan]
  exact h next.pos

theorem scansFrom_lineEnd (hgap : Gap used) (hline : '\n' ∈ used) (h : ScansFrom false rest ts) :
    ScansFrom true (used ++ rest) (.terminator :: ts) := by
  intro pos
  obtain ⟨span, next, rfl, hscan⟩ := @scanFrom_lineEnd pos used rest hgap hline
  obtain ⟨hok, htokens⟩ := h next.pos
  rw [hscan]
  exact ⟨hok, htokens.imp (congrArg (Token.terminator :: ·)) (congrArg (Token.terminator :: ·))⟩

/-! ## The text of tokens in a row -/

/-- **A slice of a text** from `pos` on that ends with the last of some tokens and gives these in
front of any text that delimits it, where `ended` says whether a statement may end before it. -/
structure Slice (ended : Bool) (pos : Pos) (slice : List Char) (ls : List Lexeme) : Prop where
  eq_nil_iff : slice = [] ↔ ls = []
  stop : ∀ l ∈ ls.getLast?, l.span.stop = pos.afterAll slice
  scans : ∀ cs ts, Delimited cs → Scans cs ts →
    ScansFrom ended (slice ++ cs) (ls.map Lexeme.token ++ ts)

namespace Slice

variable {slice : List Char} {ls : List Lexeme}

theorem nil : Slice ended pos [] [] where
  eq_nil_iff := Iff.intro (fun _ => rfl) fun _ => rfl
  stop _ hl := nomatch hl
  scans _ _ _ h := h ended

/-- Where a slice ends that has something put in front of it. -/
theorem stop_append (h : Slice ended (pos.afterAll used) slice ls) :
    ∀ l ∈ ls.getLast?, l.span.stop = pos.afterAll (used ++ slice) := by
  rw [Pos.afterAll_append]
  exact h.stop

/-- A gap may stand in front of tokens. -/
theorem gap (hgap : Gap used) (hstops : GapStops used (slice ++ rest))
    (hline : ended = true → '\n' ∉ used) (hne : ls ≠ [])
    (h : Slice ended (pos.afterAll used) slice ls) : Slice ended pos (used ++ slice) ls where
  eq_nil_iff := by simp [h.eq_nil_iff, hne]
  stop := h.stop_append
  scans cs ts hd hcs := by
    -- the slice goes on behind the gap, so a comment on a line ends where it did
    have hslice : slice ≠ [] := fun hnil => hne (h.eq_nil_iff.mp hnil)
    have hstops : GapStops used (slice ++ cs) := by
      unfold GapStops at hstops ⊢
      rwa [List.head?_append_of_ne_nil _ hslice] at hstops ⊢
    rw [List.append_assoc]
    exact scansFrom_gap hgap hstops hline (h.scans cs ts hd hcs)

/-- A token may stand in front of tokens that it does not go on in. -/
theorem token {t : Token} (hwritten : t.IsWritten used) (ht : t.Lexical) (hne : used ≠ [])
    (hline : used ≠ ['\n']) (hstops : t.StopsAt (slice ++ rest))
    (h : Slice t.endsValue (pos.afterAll used) slice ls) :
    Slice ended pos (used ++ slice) (⟨t, pos, pos.afterAll used⟩ :: ls) where
  eq_nil_iff := by simp [hne]
  stop l hl := by
    cases ls with
    | nil =>
      obtain rfl : _ = l := Option.some.inj hl
      rw [h.eq_nil_iff.mpr rfl, List.append_nil]
      rfl
    | cons l' ls =>
      rw [List.getLast?_cons_cons] at hl
      exact h.stop_append l hl
  scans cs ts hd hcs := by
    rw [List.append_assoc]
    have htakes := takes_token hwritten ht (fun _ => hline) (stopsAt_append ht hstops hd)
    exact htakes.scans (h.scans cs ts hd hcs) ended

/-- A line end that ends a statement may stand in front of tokens. -/
theorem lineEnd {span : Span} (hgap : Gap used) (hline : '\n' ∈ used) (hne : ls ≠ [])
    (h : Slice false (pos.afterAll used) slice ls) :
    Slice true pos (used ++ slice) (⟨.terminator, span⟩ :: ls) where
  eq_nil_iff := by
    have hused : used ≠ [] := List.ne_nil_of_mem hline
    simp [hused]
  stop l hl := by
    obtain ⟨l', ls, rfl⟩ := List.exists_cons_of_ne_nil hne
    rw [List.getLast?_cons_cons] at hl
    exact h.stop_append l hl
  scans cs ts hd hcs := by
    rw [List.append_assoc]
    exact scansFrom_lineEnd hgap hline (h.scans cs ts hd hcs)

end Slice

end Scan

namespace Tiling

variable {ended : Bool} {pos : Pos} {cs : List Char} {l : Lexeme} {ls ls' : List Lexeme}

/-- The slice of the first tokens of a text. -/
theorem exists_slice_start (h : Tiling ended pos cs (ls ++ ls'))
    (hlex : ∀ l ∈ ls, l.token.Lexical) (hlast : ∀ l ∈ ls.getLast?, l.token ≠ .terminator) :
    ∃ slice rest, cs = slice ++ rest ∧ Scan.Slice ended pos slice ls := by
  generalize hall : ls ++ ls' = all at h
  induction h generalizing ls with
  | done =>
    obtain ⟨rfl, -⟩ := List.append_eq_nil_iff.mp hall
    exact ⟨[], [], rfl, .nil⟩
  | textEnd =>
    cases ls with
    | nil => exact ⟨[], [], rfl, .nil⟩
    | cons l ls =>
      obtain ⟨rfl, hnil⟩ := List.cons.inj hall
      obtain ⟨rfl, -⟩ := List.append_eq_nil_iff.mp hnil
      exact absurd rfl (hlast _ rfl)
  | @gap ended pos used rest _ hgap hstops hline _ ih =>
    by_cases hne : ls = []
    · subst hne
      exact ⟨[], used ++ rest, rfl, .nil⟩
    · obtain ⟨slice, rest, rfl, hslice⟩ := ih hlex hlast hall
      exact ⟨used ++ slice, rest, by simp, hslice.gap hgap hstops hline hne⟩
  | @token ended pos t used rest _ hwritten hne hline hstops _ ih =>
    cases ls with
    | nil => exact ⟨[], used ++ rest, rfl, .nil⟩
    | cons l ls =>
      obtain ⟨rfl, htail⟩ := List.cons.inj hall
      obtain ⟨ht, hlex⟩ := List.forall_mem_cons.mp hlex
      obtain ⟨slice, rest, rfl, hslice⟩ :=
        ih hlex (fun l hl => hlast l (List.mem_getLast?_cons hl)) htail
      exact ⟨used ++ slice, rest, by simp, hslice.token hwritten ht hne hline hstops⟩
  | @lineEnd pos before after rest _ hgap _ _ ih =>
    cases ls with
    | nil => exact ⟨[], _, rfl, .nil⟩
    | cons l ls =>
      obtain ⟨rfl, htail⟩ := List.cons.inj hall
      -- a terminator that was put in is not the last of these tokens
      have hne : ls ≠ [] := by
        rintro rfl
        exact hlast _ rfl rfl
      obtain ⟨slice, rest, rfl, hslice⟩ := ih (List.forall_mem_cons.mp hlex).2
        (fun l hl => hlast l (List.mem_getLast?_cons hl)) htail
      exact ⟨before ++ '\n' :: after ++ slice, rest, by simp,
        hslice.lineEnd hgap (by simp) hne⟩

/-- Where a token stands that is not a terminator. -/
theorem exists_token (h : Tiling ended pos cs (ls ++ l :: ls')) (hl : l.token ≠ .terminator) :
    ∃ before used rest, cs = before ++ (used ++ rest) ∧ l.token.IsWritten used ∧ used ≠ [] ∧
      used ≠ ['\n'] ∧ l.token.StopsAt rest ∧
      l.span = ⟨pos.afterAll before, (pos.afterAll before).afterAll used⟩ ∧
      Tiling l.token.endsValue ((pos.afterAll before).afterAll used) rest ls' := by
  generalize hall : ls ++ l :: ls' = all at h
  induction h generalizing ls with
  | done => simp at hall
  | textEnd =>
    obtain rfl := List.mem_singleton.mp (hall ▸ List.mem_append_right ls (List.mem_cons_self ..))
    exact absurd rfl hl
  | @gap ended pos used _ _ _ _ _ _ ih =>
    obtain ⟨before, written, rest, rfl, hwritten⟩ := ih hall
    exact ⟨used ++ before, written, rest, by simp, by rwa [Pos.afterAll_append]⟩
  | @token ended pos t used rest _ hwritten hne hline hstops htail ih =>
    cases ls with
    | nil =>
      cases hall
      exact ⟨[], used, rest, rfl, hwritten, hne, hline, hstops, rfl, htail⟩
    | cons _ ls =>
      obtain ⟨before, written, rest, rfl, hwritten⟩ := ih (List.cons.inj hall).2
      exact ⟨used ++ before, written, rest, by simp, by rwa [Pos.afterAll_append]⟩
  | @lineEnd pos before after _ _ _ _ _ ih =>
    cases ls with
    | nil =>
      cases hall
      exact absurd rfl hl
    | cons _ ls =>
      obtain ⟨before', written, rest, rfl, hwritten⟩ := ih (List.cons.inj hall).2
      exact ⟨before ++ '\n' :: after ++ before', written, rest, by simp,
        by rwa [Pos.afterAll_append]⟩

/-- **Tokens in a row are what the text between their ends gives,** whether a statement may end
before it or not. -/
theorem exists_slice {here : List Lexeme} {first : Lexeme}
    (h : Tiling ended pos cs (ls ++ (first :: here ++ ls')))
    (hlex : ∀ l ∈ first :: here, l.token.Lexical) (hfirst : first.token ≠ .terminator)
    (hlast : ∀ l ∈ (first :: here).getLast?, l.token ≠ .terminator) :
    ∃ before slice rest, cs = before ++ (slice ++ rest) ∧ first.span.start = pos.afterAll before ∧
      ∀ ended, Scan.Slice ended (pos.afterAll before) slice (first :: here) := by
  obtain ⟨ht, hlex⟩ := List.forall_mem_cons.mp hlex
  obtain ⟨before, used, rest, rfl, hwritten, hne, hline, hstops, hspan, htail⟩ :=
    h.exists_token hfirst
  obtain ⟨slice, rest, rfl, hslice⟩ :=
    htail.exists_slice_start hlex fun l hl => hlast l (List.mem_getLast?_cons hl)
  obtain ⟨t, span⟩ := first
  obtain rfl : span = _ := hspan
  exact ⟨before, used ++ slice, rest, by simp, rfl, fun _ =>
    hslice.token hwritten ht hne hline hstops⟩

end Tiling

end StockFlow
