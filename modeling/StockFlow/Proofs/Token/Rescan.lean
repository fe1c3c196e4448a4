import Mathlib.Data.List.Basic
import StockFlow.Proofs.Token.Scan

/-!
# Written tokens are scanned back

Where a token is written and goes no further, the scanner takes it, whatever stands before it. So a
text put together from words, numerals, quoted texts and single characters gives these tokens again,
if a character that cannot stand in a word or a numeral stands behind each word and numeral.

* `Scan.Takes`, `Scan.takes_token` — a token at the start of a text is taken
* `Scan.Scans` — the scanner makes these tokens of a text
* `Scan.scans_token`, `Scan.scans_char` — a token in front of a text
* `Scan.lexical_of_mem` — names and quoted texts that were scanned can be written and scanned again
-/

namespace StockFlow

namespace Token

/-- Whether the scanner gives a word as an identifier. -/
def IsName (name : String) : Prop :=
  name.toList.head?.any Text.startsIdentifier = true ∧
    name.toList.all Text.continuesIdentifier = true ∧ Keyword.ofSpelling? name = none

instance (name : String) : Decidable (IsName name) := by
  unfold IsName
  infer_instance

/-- What may stand between two quotes. -/
def IsQuotable (quote : Char) (content : String) : Prop :=
  ∀ c ∈ content.toList, c ≠ quote ∧ c ≠ '\n'

/-- An identifier, a number or a text in quotes that can be written. -/
def Lexical : Token → Prop
  | identifier name => IsName name
  | number text => (Decimal.Number.parse? text.toList).isSome
  | literal content => IsQuotable '"' content
  | typeName content => IsQuotable '\x60' content
  | _ => True

end Token

/-- The token that a step gives can be written, unless it is a number that is not a numeral. -/
def ScanStep.Lexical : ScanStep → Prop
  | .lexeme l _ => l.token.Readable → l.token.Lexical
  | .gap _ | .error _ => True

/-- A text that goes on with nothing that a word or a numeral would take in. -/
def Delimited (cs : List Char) : Prop :=
  ∀ c ∈ cs.head?, c ∈ [' ', ',', ':', '(', ')', '[', ']', '\x7b', '\x7d']

namespace Delimited

variable {c : Char} {cs : List Char}

theorem cons (hc : c ∈ [' ', ',', ':', '(', ')', '[', ']', '\x7b', '\x7d']) :
    Delimited (c :: cs) := by
  intro c' hc'
  obtain rfl := Option.some.inj hc'
  exact hc

/-- No character of a word, a numeral or the mark of a comment is next. -/
theorem not_taken (h : Delimited cs) (hc : c ∈ cs.head?) :
    ¬Text.continuesIdentifier c = true ∧ ¬Scan.InNumeral c ∧ c ≠ '/' ∧ c ≠ '*' := by
  have hmem := h c hc
  unfold Scan.InNumeral
  simp only [List.mem_cons, List.not_mem_nil, or_false] at hmem
  rcases hmem with rfl | rfl | rfl | rfl | rfl | rfl | rfl | rfl | rfl <;> decide

end Delimited

namespace Scan

variable {c quote : Char} {cs ds rest used : List Char} {t : Token} {ts : List Token}

/-! ## Where a token ends -/

theorem takeWhile_append_of_head {p : Char → Bool} {xs ys : List Char}
    (hxs : ∀ c ∈ xs, p c = true) (hys : ∀ c ∈ ys.head?, ¬p c = true) :
    (xs ++ ys).takeWhile p = xs ∧ (xs ++ ys).dropWhile p = ys := by
  rw [List.takeWhile_append_of_pos hxs, List.dropWhile_append_of_pos hxs]
  cases ys with
  | nil => exact ⟨List.append_nil xs, rfl⟩
  | cons y ys =>
    have hy := hys y rfl
    rw [List.takeWhile_cons_of_neg hy, List.dropWhile_cons_of_neg hy, List.append_nil]
    exact ⟨rfl, rfl⟩

/-- A numeral that starts before a text that is delimited ends there. -/
theorem take_numeral_prefix (cs : List Char) (hd : Delimited rest) :
    (cs ++ rest).take (numeralLength (cs ++ rest)) <+: cs := by
  by_cases hle : numeralLength (cs ++ rest) ≤ cs.length
  · rw [List.take_append_of_le_length hle]
    exact List.take_prefix _ cs
  · have hall := numeralLength_le (cs ++ rest)
    cases rest with
    | nil =>
      rw [List.append_nil] at hle hall
      exact absurd hall hle
    | cons c rest =>
      have hmem : c ∈ (cs ++ c :: rest).take (numeralLength (cs ++ c :: rest)) := by
        rw [List.take_append, List.mem_append]
        refine Or.inr ?_
        obtain ⟨n, hn⟩ := Nat.exists_eq_succ_of_ne_zero
          (Nat.sub_ne_zero_of_lt (Nat.lt_of_not_le hle))
        rw [hn, List.take_succ_cons]
        exact List.mem_cons_self ..
      exact absurd ((isNumeral_take _).inNumeral c hmem) (hd.not_taken rfl).2.1

/-- **A numeral ends where nothing makes it longer,** not what stands behind it and not what is
delimited. -/
theorem stopsAt_number {text : String} {after : List Char} (h : IsNumeral text.toList)
    (hstops : cs = [] ∨ (Token.number text).StopsAt (cs ++ after)) (hd : Delimited rest) :
    (Token.number text).StopsAt (cs ++ rest) := by
  have hlength : numeralLength (text.toList ++ (cs ++ rest)) = text.toList.length := by
    refine Nat.le_antisymm ?_ (h.length_le _)
    rw [← List.append_assoc, ← List.length_take_of_le (numeralLength_le _)]
    have htaken := isNumeral_take (text.toList ++ cs ++ rest)
    have hprefix := take_numeral_prefix (text.toList ++ cs) hd
    generalize (text.toList ++ cs ++ rest).take _ = taken at htaken hprefix ⊢
    rcases hstops with rfl | hstops
    · simpa using hprefix.length_le
    · obtain ⟨more, hmore⟩ := hprefix
      calc taken.length ≤ numeralLength (taken ++ (more ++ after)) := htaken.length_le _
        _ = numeralLength (text.toList ++ (cs ++ after)) := by
          rw [← List.append_assoc, hmore, List.append_assoc]
        _ = text.toList.length := by
          rw [← List.length_take_of_le (numeralLength_le _), hstops]
  rw [Token.StopsAt, hlength, List.take_left]

/-- A token that can be written goes no further in front of a text that is delimited. -/
theorem stopsAt_of_delimited (ht : t.Lexical) (hd : Delimited rest) : t.StopsAt rest := by
  cases t with
  | keyword k => exact fun c hc => (hd.not_taken hc).1
  | identifier name => exact fun c hc => (hd.not_taken hc).1
  | sign s =>
    cases s with
    | slash => exact fun c hc => (hd.not_taken hc).2.2
    | _ => trivial
  | number text =>
    exact @stopsAt_number [] rest text [] (isNumeral_of_parse? ht) (Or.inl rfl) hd
  | _ => trivial

/-- Where a token goes no further depends on what stands next, but for a text that is delimited. -/
theorem stopsAt_append {after : List Char} (ht : t.Lexical) (hstops : t.StopsAt (cs ++ after))
    (hd : Delimited rest) : t.StopsAt (cs ++ rest) := by
  by_cases hne : cs = []
  · rw [hne, List.nil_append]
    exact stopsAt_of_delimited ht hd
  have hhead : (cs ++ rest).head? = (cs ++ after).head? := by
    rw [List.head?_append_of_ne_nil _ hne, List.head?_append_of_ne_nil _ hne]
  cases t with
  | keyword k => exact fun c hc => hstops c (hhead ▸ hc)
  | identifier name => exact fun c hc => hstops c (hhead ▸ hc)
  | sign s =>
    cases s with
    | slash => exact fun c hc => hstops c (hhead ▸ hc)
    | _ => trivial
  | number text => exact stopsAt_number (isNumeral_of_parse? ht) (Or.inr hstops) hd
  | _ => trivial

/-! ## Taking a token -/

theorem scanFrom_of_lexeme {ended : Bool} {pos : Pos} {l : Lexeme} {next : Cursor}
    (h : step ended pos c cs = .lexeme l next) :
    scanFrom ended ⟨c :: cs, pos⟩ = cons l (scanFrom l.token.endsValue next) := by
  rw [scanFrom]
  split
  · next h' =>
    cases h.symm.trans h'
    rfl
  · next h' => cases h.symm.trans h'
  · next h' => cases h.symm.trans h'

theorem scanFrom_of_gap {ended : Bool} {pos : Pos} {next : Cursor}
    (h : step ended pos c cs = .gap next) :
    scanFrom ended ⟨c :: cs, pos⟩ = scanFrom ended next := by
  rw [scanFrom]
  split
  · next h' => cases h.symm.trans h'
  · next h' =>
    cases h.symm.trans h'
    rfl
  · next h' => cases h.symm.trans h'

/-- **A token is taken from the start of a text,** whatever stands before it. -/
def Takes (cs : List Char) (t : Token) (rest : List Char) : Prop :=
  ∀ ended pos, ∃ span next, next.rest = rest ∧
    scanFrom ended ⟨cs, pos⟩ = cons ⟨t, span⟩ (scanFrom t.endsValue next)

theorem takes_of_step (h : ∀ ended pos, ∃ span next,
    step ended pos c cs = .lexeme ⟨t, span⟩ next ∧ next.rest = rest) : Takes (c :: cs) t rest := by
  intro ended pos
  obtain ⟨span, next, hstep, hrest⟩ := h ended pos
  exact ⟨span, next, hrest, scanFrom_of_lexeme hstep⟩

theorem takes_char (hc : single? c = some t) : Takes (c :: cs) t cs := by
  refine takes_of_step fun ended pos => ?_
  unfold single? at hc
  split at hc <;> cases hc <;> exact ⟨_, _, rfl, rfl⟩

theorem takes_slash (h : ∀ c ∈ cs.head?, c ≠ '/' ∧ c ≠ '*') :
    Takes ('/' :: cs) (.sign .slash) cs := by
  refine takes_of_step fun ended pos => ?_
  have hstep : step ended pos '/' cs = slash ended ⟨'/' :: cs, pos⟩ := rfl
  rw [hstep, slash]
  simp only [List.drop_succ_cons, List.drop_zero]
  split
  · exact absurd rfl (h _ rfl).1
  · exact absurd rfl (h _ rfl).2
  · exact ⟨_, _, rfl, rfl⟩

/-- Where a word may start, a word is read. -/
theorem step_word {ended : Bool} {pos : Pos} (h : Text.startsIdentifier c = true) :
    step ended pos c cs = word ⟨c :: cs, pos⟩ := by
  have hne : c ≠ '\n' ∧ c ≠ '/' ∧ c ≠ '"' ∧ c ≠ '\x60' := by
    refine ⟨?_, ?_, ?_, ?_⟩ <;>
    · rintro rfl
      exact absurd h (by decide)
  simp only [step, if_neg hne.1, if_neg hne.2.1, if_neg hne.2.2.1, if_neg hne.2.2.2, if_pos h]

theorem takes_word (hstarts : used.head?.any Text.startsIdentifier = true)
    (hcontinues : used.all Text.continuesIdentifier = true)
    (hstops : ∀ c ∈ rest.head?, ¬Text.continuesIdentifier c = true) :
    Takes (used ++ rest) (wordToken (String.ofList used)) rest := by
  cases used with
  | nil => cases hstarts
  | cons c w =>
    obtain ⟨htake, hdrop⟩ := takeWhile_append_of_head (List.all_eq_true.mp hcontinues) hstops
    refine takes_of_step fun ended pos => ?_
    have hstep : step ended pos c (w ++ rest) = word ⟨c :: w ++ rest, pos⟩ := step_word hstarts
    rw [word] at hstep
    simp only [htake] at hstep
    exact ⟨_, _, hstep, hdrop⟩

theorem takes_quoted {make : String → Token} {fault : SyntaxFault} {content : String}
    (hstep : ∀ ended pos cs, step ended pos quote cs = quoted ⟨quote :: cs, pos⟩ quote make fault)
    (hc : Token.IsQuotable quote content) :
    Takes (quote :: content.toList ++ [quote] ++ rest) (make content) rest := by
  have hinside : ∀ c ∈ content.toList, (!(c = quote || c = '\n')) = true := by
    intro c hmem
    simpa using hc c hmem
  have hquote : ∀ c ∈ (quote :: rest).head?, ¬(!(c = quote || c = '\n')) = true := by
    intro c hmem
    obtain rfl := Option.some.inj hmem
    simp
  obtain ⟨htake, hdrop⟩ := takeWhile_append_of_head hinside hquote
  rw [List.cons_append, List.cons_append, List.append_assoc, List.singleton_append]
  refine takes_of_step fun ended pos => ?_
  rw [hstep, quoted]
  simp only [Cursor.rest_dropWhile, Cursor.rest_drop, List.drop_succ_cons, List.drop_zero, htake,
    hdrop, List.head?_cons, if_true, String.ofList_toList]
  refine ⟨_, _, rfl, ?_⟩
  rw [Cursor.rest_drop, Cursor.rest_dropWhile]
  exact congrArg (List.drop 1) hdrop

theorem not_startsIdentifier_of_isDigit (h : c.isDigit = true) :
    Text.startsIdentifier c = false := by
  have hbounds : 48 ≤ c.val.toNat ∧ c.val.toNat ≤ 57 := by
    simpa [Char.isDigit, UInt32.le_iff_toNat_le] using h
  have hunderscore : c ≠ '_' := by
    rintro rfl
    exact absurd h (by decide)
  -- the letters stand behind the digits
  have hletter {first : Char} (hfirst : 57 < first.val.toNat) (h : first.val ≤ c.val) : False :=
    absurd (UInt32.le_iff_toNat_le.mp h) (by omega)
  have halpha : c.isAlpha = false := by
    refine Bool.eq_false_iff.mpr fun halpha => ?_
    rcases Bool.or_eq_true_iff.mp (show (c.isUpper || c.isLower) = true from halpha) with h | h
    · have hbetween : 'A'.val ≤ c.val ∧ c.val ≤ 'Z'.val := of_decide_eq_true h
      exact hletter (by decide) hbetween.1
    · have hbetween := Bool.and_eq_true_iff.mp
        (show (decide ('a'.val ≤ c.val) && decide (c.val ≤ 'z'.val)) = true from h)
      exact hletter (by decide) (of_decide_eq_true hbetween.1)
  have hascii : c.toNat < 128 := Nat.lt_of_le_of_lt hbounds.2 (by decide)
  rw [Text.startsIdentifier, if_pos hascii, halpha, decide_eq_false hunderscore]
  rfl

/-- A numeral starts like a number, whatever stands behind it, and not like a word. -/
theorem exists_cons_of_parse? {numeral : List Char}
    (h : (Decimal.Number.parse? numeral).isSome) : ∃ c ds, numeral = c :: ds ∧
      Text.startsIdentifier c = false ∧ ∀ cs, startsNumber c (ds ++ cs) = true := by
  obtain ⟨whole, fraction, exponent, rfl, hwhole, hfraction, -, hne⟩ :=
    Decimal.Number.exists_parts_of_parse? h
  cases whole with
  | cons d ds =>
    have hd := hwhole d (List.mem_cons_self ..)
    refine ⟨d, _, rfl, not_startsIdentifier_of_isDigit hd, fun cs => ?_⟩
    rw [startsNumber, hd, Bool.true_or]
  | nil =>
    obtain ⟨d, ds, rfl⟩ := hne.resolve_left fun h => h rfl
    cases hfraction with
    | point hds =>
      refine ⟨'.', _, rfl, by decide, fun cs => ?_⟩
      simp [startsNumber, hds d (List.mem_cons_self ..)]

theorem takes_number {text : String} (h : (Decimal.Number.parse? text.toList).isSome)
    (hstops : (Token.number text).StopsAt rest) :
    Takes (text.toList ++ rest) (.number text) rest := by
  have hsize := (Decimal.Number.plain_of_parse? h).byteCount_eq
  obtain ⟨c, ds, hc, hword, hstarts⟩ := exists_cons_of_parse? h
  have hne : c ≠ '\n' ∧ c ≠ '/' ∧ c ≠ '"' ∧ c ≠ '\x60' := by
    refine ⟨?_, ?_, ?_, ?_⟩ <;>
    · rintro rfl
      exact absurd (hstarts []) (by simp [startsNumber])
  rw [Token.StopsAt] at hstops
  rw [hc, List.cons_append]
  refine takes_of_step fun ended pos => ?_
  have hstep : step ended pos c (ds ++ rest) = number ⟨c :: (ds ++ rest), pos⟩ := by
    simp only [step, if_neg hne.1, if_neg hne.2.1, if_neg hne.2.2.1, if_neg hne.2.2.2, hword,
      Bool.false_eq_true, if_false, if_pos (hstarts rest)]
  rw [← List.cons_append, ← hc] at hstep
  rw [hstep, number]
  simp only [hstops, hsize, String.ofList_toList]
  refine ⟨_, _, rfl, ?_⟩
  rw [Cursor.rest_drop]
  exact List.drop_left

/-- **A token is taken where it is written and goes no further.** -/
theorem takes_token (hwritten : t.IsWritten used) (ht : t.Lexical)
    (hline : t = .terminator → used ≠ ['\n']) (hstops : t.StopsAt rest) :
    Takes (used ++ rest) t rest := by
  cases t with
  | keyword k =>
    obtain rfl : used = _ := hwritten
    have hword : k.spelling.toList.head?.any Text.startsIdentifier = true ∧
        k.spelling.toList.all Text.continuesIdentifier = true := by
      cases k <;> decide
    have htakes := takes_word hword.1 hword.2 hstops
    rwa [String.ofList_toList, wordToken, Keyword.ofSpelling?_spelling] at htakes
  | sign s =>
    obtain rfl : used = _ := hwritten
    cases s with
    | slash => exact takes_slash hstops
    | _ => exact takes_char rfl
  | opening b =>
    obtain rfl : used = _ := hwritten
    cases b <;> exact takes_char rfl
  | closing b =>
    obtain rfl : used = _ := hwritten
    cases b <;> exact takes_char rfl
  | terminator =>
    obtain rfl : used = _ := hwritten.resolve_right (hline rfl)
    exact takes_char rfl
  | identifier name =>
    obtain rfl : used = _ := hwritten
    obtain ⟨hstarts, hcontinues, hkeyword⟩ := ht
    have htakes := takes_word hstarts hcontinues hstops
    rwa [String.ofList_toList, wordToken, hkeyword] at htakes
  | number text =>
    obtain rfl : used = _ := hwritten
    exact takes_number ht hstops
  | literal content =>
    obtain rfl : used = _ := hwritten
    exact takes_quoted (fun _ _ _ => rfl) ht
  | typeName content =>
    obtain rfl : used = _ := hwritten
    exact takes_quoted (fun _ _ _ => rfl) ht

/-! ## Scanning -/

/-- The scanner makes these tokens of a text, where `ended` says whether a statement may end before
it, perhaps with a terminator at the end of the text. -/
def ScansFrom (ended : Bool) (cs : List Char) (ts : List Token) : Prop :=
  ∀ pos, (scanFrom ended ⟨cs, pos⟩).error = none ∧
    ((scanFrom ended ⟨cs, pos⟩).lexemes.map Lexeme.token = ts ∨
      (scanFrom ended ⟨cs, pos⟩).lexemes.map Lexeme.token = ts ++ [.terminator])

/-- The scanner makes these tokens of a text, perhaps with a terminator at the end of the text. -/
def Scans (cs : List Char) (ts : List Token) : Prop := ∀ ended, ScansFrom ended cs ts

/-- A piece of text gives tokens that can be written, in front of any text that delimits it. -/
def Writes (piece : List Char) (ts : List Token) : Prop :=
  (∀ t ∈ ts, t.Lexical) → ∀ cs more, Delimited cs → Scans cs more →
    Scans (piece ++ cs) (ts ++ more)

theorem scans_nil : Scans [] [] := by
  intro ended pos
  rw [scanFrom]
  cases ended with
  | false => exact ⟨rfl, Or.inl rfl⟩
  | true => exact ⟨rfl, Or.inr rfl⟩

/-- What is scanned behind a token is scanned behind it. -/
theorem Takes.scans (h : Takes cs t rest) (hrest : ScansFrom t.endsValue rest ts) :
    Scans cs (t :: ts) := by
  intro ended pos
  obtain ⟨span, next, rfl, hscan⟩ := h ended pos
  obtain ⟨hok, htokens⟩ := hrest next.pos
  rw [hscan]
  exact ⟨hok, htokens.imp (congrArg (t :: ·)) (congrArg (t :: ·))⟩

/-- A space stands between tokens. -/
theorem scans_space (h : Scans cs ts) : Scans (' ' :: cs) ts := by
  intro ended pos
  have hscan : scanFrom ended ⟨' ' :: cs, pos⟩ = scanFrom ended ⟨cs, pos.after ' '⟩ :=
    scanFrom_of_gap rfl
  rw [hscan]
  exact h ended _

theorem scans_char (hc : single? c = some t) (h : Scans cs ts) : Scans (c :: cs) (t :: ts) :=
  (takes_char hc).scans (h _)

/-- A token is scanned in front of a text that is delimited. -/
theorem scans_token (hwritten : t.IsWritten used) (ht : t.Lexical)
    (hline : t = .terminator → used ≠ ['\n']) (hd : Delimited cs) (h : Scans cs ts) :
    Scans (used ++ cs) (t :: ts) :=
  (takes_token hwritten ht hline (stopsAt_of_delimited ht hd)).scans (h _)

theorem scans_identifier {name : String} (hname : Token.IsName name) (hd : Delimited cs)
    (h : Scans cs ts) : Scans (name.toList ++ cs) (.identifier name :: ts) :=
  scans_token (t := .identifier name) rfl hname nofun hd h

theorem scans_keyword (k : Keyword) (hd : Delimited cs) (h : Scans cs ts) :
    Scans (k.spelling.toList ++ cs) (.keyword k :: ts) :=
  scans_token (t := .keyword k) rfl trivial nofun hd h

/-! ## What was scanned can be written -/

theorem word_lexical {cur : Cursor} (h : cur.rest.head?.any Text.startsIdentifier = true) :
    (word cur).Lexical := by
  intro _
  show (wordToken _).Lexical
  unfold wordToken
  split
  · trivial
  · next hkeyword =>
    refine ⟨?_, ?_, hkeyword⟩
    · rw [String.toList_ofList]
      cases hrest : cur.rest with
      | nil =>
        rw [hrest] at h
        cases h
      | cons c rest =>
        rw [hrest] at h
        rw [List.takeWhile_cons_of_pos (Text.continues_of_starts h)]
        exact h
    · rw [String.toList_ofList]
      exact List.all_takeWhile

theorem quoted_lexical {cur : Cursor} {quote : Char} {make : String → Token} {fault : SyntaxFault}
    (hmake : ∀ content : String,
      Token.IsQuotable quote content → (make content).Lexical) :
    (quoted cur quote make fault).Lexical := by
  unfold quoted
  simp only
  split
  · refine fun _ => hmake _ fun c hc => ?_
    rw [String.toList_ofList] at hc
    have hinside := List.all_eq_true.mp List.all_takeWhile c hc
    simpa using hinside
  · trivial

theorem blockComment_lexical {ended : Bool} {cur : Cursor} : (blockComment ended cur).Lexical := by
  unfold blockComment
  simp only
  split
  · trivial
  · split
    · exact fun _ => trivial
    · trivial
  · trivial

theorem slash_lexical {ended : Bool} {cur : Cursor} : (slash ended cur).Lexical := by
  unfold slash
  split
  · trivial
  · exact blockComment_lexical
  · exact fun _ => trivial

theorem lexical_of_single? (h : single? c = some t) : t.Lexical := by
  unfold single? at h
  split at h <;> cases h <;> trivial

theorem step_lexical {ended : Bool} {pos : Pos} : (step ended pos c cs).Lexical := by
  unfold step
  simp only
  split
  · unfold lineEnd
    split
    · exact fun _ => trivial
    · trivial
  split
  · exact slash_lexical
  split
  · exact quoted_lexical fun _ h => h
  split
  · exact quoted_lexical fun _ h => h
  split
  · next hstarts => exact word_lexical hstarts
  split
  · exact id
  split
  · trivial
  · split
    · next hsingle => exact fun _ => lexical_of_single? hsingle
    · trivial

/-- **Names and quoted texts that were scanned can be written and scanned again.** -/
theorem lexical_of_mem {text : String} {l : Lexeme} (hl : l ∈ (ofText text).lexemes)
    (hread : l.token.Readable) : l.token.Lexical := by
  have hall : ∀ ended cur, ∀ l ∈ (scanFrom ended cur).lexemes, l.token.Readable →
      l.token.Lexical := by
    intro ended cur
    fun_induction scanFrom ended cur with
    | case1 => exact fun l hl _ => List.mem_singleton.mp hl ▸ trivial
    | case2 => exact fun l hl => absurd hl List.not_mem_nil
    | case3 ended c rest pos l next hstep ih =>
      have hlexical := @step_lexical c rest ended pos
      rw [hstep] at hlexical
      exact List.forall_mem_cons.mpr ⟨hlexical, ih⟩
    | case4 ended c rest pos next hstep ih => exact ih
    | case5 => exact fun l hl => absurd hl List.not_mem_nil
  exact hall _ _ l hl hread

end Scan

end StockFlow
