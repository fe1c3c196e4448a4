import StockFlow.Proofs.Positions
import StockFlow.Source.Snippet

/-!
# The lines of a text

A line ends with a newline, to which a carriage return in front of it belongs, or with the text. The
scanner counts newlines only, so to it such a carriage return is the last character of the line.

* `Line.IsIn`, `Line.Holds` — a line of a text, and the places in it
* `Line.exists_of_isExact` — every position is in a line
* `Line.part_of_holds` — what stands in a line before a position
* `Line.getD_lines` — a line is shown as it is
* `Line.line_eq` — the number of a position leads to its line
* `Line.take_eq_before` — its column leads to what stands before it in the line
* `Line.shownAt_before` — a place is shown behind what is before it
-/

namespace StockFlow

/-- A line: what it holds and how it ends, with what stands before it and behind it in its text. -/
structure Line where
  earlier : List Char
  content : List Char
  ending : List Char
  later : List Char

namespace Line

/-- How a line can end: with a carriage return and a newline, with a newline that no carriage return
stands in front of, or with the text. -/
inductive Ends : List Char → List Char → List Char → Prop
  | returned {content later : List Char} : Ends content ['\r', '\n'] later
  | newline {content later : List Char} : content.getLast? ≠ some '\r' → Ends content ['\n'] later
  | textEnd {content : List Char} : Ends content [] []

/-- **A line of a text.** It starts with the text or behind a newline, and holds none. -/
structure IsIn (l : Line) (text : List Char) : Prop where
  text_eq : text = l.earlier ++ (l.content ++ (l.ending ++ l.later))
  starts : l.earlier = [] ∨ l.earlier.getLast? = some '\n'
  single : '\n' ∉ l.content
  ends : Ends l.content l.ending l.later

/-- **The places in a line** are those from its start to before the next line, or to the end of the
text if there is none. -/
structure Holds (l : Line) (offset : Nat) : Prop where
  start : byteCount l.earlier ≤ offset
  stop : offset < byteCount (l.earlier ++ (l.content ++ l.ending)) ∨
    l.ending = [] ∧ offset = byteCount (l.earlier ++ l.content)

/-- The characters of a text that start in its first `n` bytes. -/
def startingWithin (n : Nat) : List Char → List Char
  | [] => []
  | c :: cs => if n = 0 then [] else c :: startingWithin (n - c.utf8Size) cs

/-- The part of a line before a place, which is all of the line if the place is in its ending. -/
def before (l : Line) (offset : Nat) : List Char :=
  startingWithin (offset - byteCount l.earlier) l.content

theorem startingWithin_append (cs ds : List Char) :
    startingWithin (byteCount cs) (cs ++ ds) = cs := by
  induction cs with
  | nil => cases ds <;> simp [startingWithin]
  | cons c cs ih =>
    have hpos := c.utf8Size_pos
    rw [List.cons_append, startingWithin, if_neg (by simp; omega), byteCount_cons,
      Nat.add_sub_cancel_left, ih]

theorem startingWithin_of_le {n : Nat} {cs : List Char} (h : byteCount cs ≤ n) :
    startingWithin n cs = cs := by
  induction cs generalizing n with
  | nil => rfl
  | cons c cs ih =>
    have hpos := c.utf8Size_pos
    rw [byteCount_cons] at h
    rw [startingWithin, if_neg (by omega), ih (by omega)]

/-! ## The line of a position -/

/-- Every text ends with a part of a line. -/
theorem exists_lastLine (cs : List Char) : ∃ earlier part, cs = earlier ++ part ∧
    (earlier = [] ∨ earlier.getLast? = some '\n') ∧ '\n' ∉ part := by
  induction cs using List.reverseRecOn with
  | nil => exact ⟨[], [], rfl, .inl rfl, nofun⟩
  | append_singleton cs c ih =>
    by_cases hc : c = '\n'
    · refine ⟨cs ++ [c], [], (List.append_nil _).symm, .inr ?_, nofun⟩
      rw [hc, List.getLast?_concat]
    · obtain ⟨earlier, part, rfl, hearlier, hpart⟩ := ih
      refine ⟨earlier, part ++ [c], List.append_assoc .., hearlier, ?_⟩
      simp [hpart, Ne.symm hc]

/-- Every text starts with the end of a line. -/
theorem exists_firstLine (cs : List Char) : ∃ part, '\n' ∉ part ∧
    (cs = part ∨ ∃ later, cs = part ++ '\n' :: later) := by
  induction cs with
  | nil => exact ⟨[], nofun, .inl rfl⟩
  | cons c cs ih =>
    by_cases hc : c = '\n'
    · exact ⟨[], nofun, .inr ⟨cs, by rw [hc]; rfl⟩⟩
    · obtain ⟨part, hpart, hcs⟩ := ih
      refine ⟨c :: part, by simp [hpart, Ne.symm hc], ?_⟩
      rcases hcs with rfl | ⟨later, rfl⟩
      · exact .inl rfl
      · exact .inr ⟨later, rfl⟩

/-- A carriage return in front of a newline belongs to the ending of the line. -/
theorem exists_ends (cs later : List Char) : ∃ content ending, cs ++ ['\n'] = content ++ ending ∧
    content <+: cs ∧ Ends content ending later := by
  by_cases hlast : cs.getLast? = some '\r'
  · obtain ⟨content, rfl⟩ := List.getLast?_eq_some_iff.mp hlast
    exact ⟨content, _, List.append_assoc .., List.prefix_append .., .returned⟩
  · exact ⟨cs, _, rfl, List.prefix_refl _, .newline hlast⟩

/-- **Every position is in a line.** -/
theorem exists_of_isExact {text : List Char} {pos : Pos} (h : pos.IsExact text) :
    ∃ l : Line, l.IsIn text ∧ l.Holds pos.offset := by
  obtain ⟨done, rest, rfl, hoffset, -⟩ := h
  obtain ⟨earlier, part, rfl, hearlier, hpart⟩ := exists_lastLine done
  obtain ⟨part', hpart', hrest⟩ := exists_firstLine rest
  have hsingle : '\n' ∉ part ++ part' := by simp [hpart, hpart']
  have hstart : byteCount earlier ≤ pos.offset := by
    rw [hoffset, byteCount_append]
    exact Nat.le_add_right ..
  rcases hrest with rfl | ⟨later, rfl⟩
  · refine ⟨⟨earlier, part ++ rest, [], []⟩, ⟨by simp, hearlier, hsingle, .textEnd⟩, hstart, ?_⟩
    rcases Nat.eq_zero_or_pos (byteCount rest) with hzero | hpos
    · exact .inr ⟨rfl, by simp [hoffset, byteCount_append, hzero]⟩
    · exact .inl (by simp [hoffset, byteCount_append, hpos])
  · obtain ⟨content, ending, hall, hcontent, hends⟩ := exists_ends (part ++ part') later
    refine ⟨⟨earlier, content, ending, later⟩,
      ⟨?_, hearlier, fun hmem => hsingle (hcontent.subset hmem), hends⟩, hstart, .inl ?_⟩
    · rw [← List.append_assoc content, ← hall]
      simp
    · rw [← hall, hoffset]
      have hpos : 0 < byteCount ['\n'] := by decide
      simp only [byteCount_append]
      omega

/-- What stands in the ending of a line before a place is nothing, or its carriage return. -/
theorem Ends.part_eq {content ending later part rest : List Char} (h : Ends content ending later)
    (hsplit : ending ++ later = part ++ rest)
    (hlt : byteCount part < byteCount ending ∨ ending = []) : part = [] ∨ part = ['\r'] := by
  cases h with
  | returned =>
    have hlt : byteCount part < 2 := hlt.resolve_right nofun
    rcases part with _ | ⟨c, _ | ⟨d, part⟩⟩
    · exact .inl rfl
    · obtain ⟨rfl, -⟩ := List.cons.inj hsplit
      exact .inr rfl
    · have hc := c.utf8Size_pos
      have hd := d.utf8Size_pos
      simp only [byteCount_cons] at hlt
      omega
  | newline =>
    have hlt : byteCount part < 1 := hlt.resolve_right nofun
    rcases part with _ | ⟨c, part⟩
    · exact .inl rfl
    · have hc := c.utf8Size_pos
      simp only [byteCount_cons] at hlt
      omega
  | textEnd => exact .inl (List.append_eq_nil_iff.mp hsplit.symm).1

/-- **What stands in a line before a position:** a part of what the line holds, or all of it and the
carriage return of its ending. -/
theorem part_of_holds {l : Line} {done rest : List Char} (hl : l.IsIn (done ++ rest))
    (hoffset : l.Holds (byteCount done)) : ∃ part, done = l.earlier ++ part ∧ '\n' ∉ part ∧
      (part <+: l.content ∨ part = l.content ++ ['\r']) := by
  obtain ⟨earlier, content, ending, later⟩ := l
  obtain ⟨htext, -, hsingle, hends⟩ := hl
  obtain ⟨hstart, hstop⟩ := hoffset
  simp only at htext hsingle hends hstart hstop ⊢
  rcases List.append_eq_append_iff.mp htext with ⟨more, rfl, -⟩ | ⟨part, rfl, hline⟩
  · obtain rfl : more = [] := by
      refine Classical.byContradiction fun hne => ?_
      have hpos := byteCount_pos hne
      rw [byteCount_append] at hstart
      omega
    exact ⟨[], by simp, nofun, .inl (List.nil_prefix)⟩
  · refine ⟨part, rfl, ?_⟩
    have hprefix : part <+: content → '\n' ∉ part ∧ (part <+: content ∨ part = content ++ ['\r']) :=
      fun h => ⟨fun hmem => hsingle (h.subset hmem), .inl h⟩
    rcases List.append_eq_append_iff.mp hline with ⟨more, rfl, hrest⟩ | ⟨more, rfl, -⟩
    · have hlt : byteCount more < byteCount ending ∨ ending = [] := by
        rcases hstop with hlt | ⟨hnil, -⟩
        · simp only [byteCount_append] at hlt
          exact .inl (by omega)
        · exact .inr hnil
      rcases hends.part_eq hrest hlt with rfl | rfl
      · exact hprefix (by simp)
      · exact ⟨by simp [hsingle], .inr rfl⟩
    · exact hprefix (List.prefix_append ..)

/-! ## The lines that are shown -/

/-- There is a line for each newline. -/
theorem length_lines_newline (cs : List Char) :
    (Snippet.lines (cs ++ ['\n'])).length = cs.count '\n' + 1 := by
  induction cs with
  | nil => rfl
  | cons c cs ih =>
    rw [List.cons_append, Snippet.lines, List.count_cons]
    by_cases hc : c = '\n'
    · simp [hc, ih]
    · simp only [hc, beq_iff_eq, if_false, Nat.add_zero]
      split
      · exact ih
      · split
        · next hnil => simp [hnil] at ih
        · next hlines => rw [hlines] at ih; exact ih

/-- The lines up to a newline do not depend on what stands behind it. -/
theorem lines_append_newline (cs ds : List Char) :
    Snippet.lines (cs ++ '\n' :: ds) = Snippet.lines (cs ++ ['\n']) ++ Snippet.lines ds := by
  induction cs with
  | nil =>
    simp [Snippet.lines]
  | cons c cs ih =>
    have hhead : (cs ++ '\n' :: ds).head? = (cs ++ ['\n']).head? := by cases cs <;> rfl
    have hlength := length_lines_newline cs
    rw [List.cons_append, List.cons_append, Snippet.lines, Snippet.lines, ih, hhead]
    split
    · rfl
    split
    · rfl
    · cases hlines : Snippet.lines (cs ++ ['\n']) with
      | nil => simp [hlines] at hlength
      | cons line more => rfl

theorem Ends.tail {c : Char} {content ending later : List Char}
    (h : Ends (c :: content) ending later) : Ends content ending later := by
  cases h with
  | returned => exact .returned
  | newline hlast =>
    refine .newline fun h => hlast ?_
    rw [List.getLast?_cons, h]
    rfl
  | textEnd => exact .textEnd

/-- A carriage return that the content of a line ends with is not in front of a newline. -/
theorem Ends.not_returned {content ending later : List Char}
    (h : Ends ('\r' :: content) ending later) (hsingle : '\n' ∉ content) :
    (content ++ (ending ++ later)).head? ≠ some '\n' := by
  cases content with
  | nil =>
    cases h with
    | returned => simp
    | newline hlast => exact absurd rfl hlast
    | textEnd => simp
  | cons d content =>
    rintro ⟨⟩
    exact hsingle (List.mem_cons_self ..)

/-- The first of some lines is what they start with. -/
theorem head_lines {content ending later : List Char} (hsingle : '\n' ∉ content)
    (hends : Ends content ending later) :
    (Snippet.lines (content ++ (ending ++ later)))[0]?.getD [] = content := by
  induction content with
  | nil => cases hends <;> simp [Snippet.lines]
  | cons c content ih =>
    obtain ⟨hc, hrest⟩ := not_or.mp (mt List.mem_cons.mpr hsingle)
    have hshown := ih hrest hends.tail
    rw [List.cons_append, Snippet.lines, if_neg (Ne.symm hc)]
    split
    · next hreturned =>
      simp only [Bool.and_eq_true, decide_eq_true_eq] at hreturned
      obtain ⟨rfl, hhead⟩ := hreturned
      exact absurd hhead (hends.not_returned hrest)
    · cases hlines : Snippet.lines (content ++ (ending ++ later)) with
      | nil =>
        rw [hlines] at hshown
        exact congrArg (c :: ·) hshown
      | cons line more =>
        rw [hlines] at hshown
        exact congrArg (c :: ·) hshown

/-- **A line of a text is shown as it is,** under the number of newlines before it. -/
theorem getD_lines {l : Line} {text : List Char} (hl : l.IsIn text) :
    (Snippet.lines text)[l.earlier.count '\n']?.getD [] = l.content := by
  have hhead := head_lines hl.single hl.ends
  rw [hl.text_eq]
  rcases hl.starts with hnil | hlast
  · rw [hnil]
    exact hhead
  · obtain ⟨cs, hearlier⟩ := List.getLast?_eq_some_iff.mp hlast
    have hlength : (Snippet.lines (cs ++ ['\n'])).length = (cs ++ ['\n']).count '\n' := by
      rw [length_lines_newline, List.count_append, List.count_singleton_self]
    rw [hearlier, List.append_assoc, List.singleton_append, lines_append_newline,
      List.getElem?_append_right (Nat.le_of_eq hlength), hlength, Nat.sub_self]
    exact hhead

/-! ## Positions in a line -/

/-- **What a position says of its line:** how many lines are before it, and how much of it is. -/
theorem exists_part {l : Line} {text : List Char} {pos : Pos} (hl : l.IsIn text)
    (hpos : pos.IsExact text) (hoffset : l.Holds pos.offset) :
    ∃ part, pos.offset = byteCount (l.earlier ++ part) ∧ pos.line = 1 + l.earlier.count '\n' ∧
      pos.col = 1 + part.length ∧ (part <+: l.content ∨ part = l.content ++ ['\r']) := by
  obtain ⟨done, rest, rfl, hbytes, hline, hcol⟩ := hpos
  rw [hbytes] at hoffset
  obtain ⟨part, rfl, hsingle, hpart⟩ := part_of_holds hl hoffset
  refine ⟨part, hbytes, ?_, ?_, hpart⟩
  · rw [hline, List.count_append, List.count_eq_zero.mpr hsingle, Nat.add_zero]
  · have hall : ∀ c ∈ part.reverse, (decide (c ≠ '\n')) = true := by
      intro c hc
      refine decide_eq_true ?_
      rintro rfl
      exact hsingle (List.mem_reverse.mp hc)
    have hstop : l.earlier.reverse.takeWhile (· ≠ '\n') = [] := by
      rcases hl.starts with hnil | hlast
      · rw [hnil]
        rfl
      · obtain ⟨cs, hearlier⟩ := List.getLast?_eq_some_iff.mp hlast
        simp [hearlier]
    rw [hcol, List.reverse_append, List.takeWhile_append_of_pos hall, hstop, List.append_nil,
      List.length_reverse]

/-- **The number of a position** leads to its line. -/
theorem line_eq {l : Line} {text : String} {pos : Pos} (hl : l.IsIn text.toList)
    (hpos : pos.IsExact text.toList) (hoffset : l.Holds pos.offset) :
    Snippet.line text pos.line = l.content := by
  obtain ⟨part, -, hline, -⟩ := exists_part hl hpos hoffset
  rw [Snippet.line, hline, Nat.add_sub_cancel_left]
  exact getD_lines hl

/-- **The column of a position** leads to what is before it in the line. -/
theorem take_eq_before {l : Line} {text : List Char} {pos : Pos} (hl : l.IsIn text)
    (hpos : pos.IsExact text) (hoffset : l.Holds pos.offset) :
    l.content.take (pos.col - 1) = l.before pos.offset := by
  obtain ⟨part, hbytes, -, hcol, hpart⟩ := exists_part hl hpos hoffset
  rw [hcol, before, hbytes, byteCount_append, Nat.add_sub_cancel_left, Nat.add_sub_cancel_left]
  rcases hpart with ⟨more, hcontent⟩ | rfl
  · rw [← hcontent, List.take_left, startingWithin_append]
  · rw [List.take_of_length_le (by simp), startingWithin_of_le]
    rw [byteCount_append]
    exact Nat.le_add_right ..

/-! ## Where a place is shown -/

/-- A text with eight spaces for each tab. -/
def widened (cs : List Char) : List Char :=
  cs.flatMap fun c => if c = '\t' then List.replicate 8 ' ' else [c]

theorem widened_append (cs ds : List Char) : widened (cs ++ ds) = widened cs ++ widened ds :=
  List.flatMap_append

/-- Lines are shown with eight spaces for each tab. -/
theorem flatMap_shown (cs : List Char) : cs.flatMap Snippet.shown = widened cs := rfl

/-- **A column in which a place of a line is shown:** there starts the character that stands at the
place, in the line as it is shown, or the line has ended there, as it has at the place. -/
inductive ShownAt (l : Line) (offset column : Nat) : Prop
  | char {done rest : List Char} {c : Char} : l.content = done ++ c :: rest →
      offset = byteCount (l.earlier ++ done) →
      widened [c] <+: (widened l.content).drop column → ShownAt l offset column
  | lineEnd : byteCount (l.earlier ++ l.content) ≤ offset → column = (widened l.content).length →
      ShownAt l offset column

/-- **A place is shown behind what is before it.** -/
theorem shownAt_before {l : Line} {text : List Char} {pos : Pos} (hl : l.IsIn text)
    (hpos : pos.IsExact text) (hoffset : l.Holds pos.offset) :
    l.ShownAt pos.offset (widened (l.before pos.offset)).length := by
  obtain ⟨part, hbytes, -, hcol, hpart⟩ := exists_part hl hpos hoffset
  rw [← take_eq_before hl hpos hoffset, hcol, Nat.add_sub_cancel_left]
  rcases hpart with ⟨more, hcontent⟩ | rfl
  · rw [← hcontent, List.take_left]
    cases more with
    | nil =>
      rw [List.append_nil] at hcontent
      exact .lineEnd (Nat.le_of_eq (by rw [hbytes, hcontent])) (by rw [hcontent])
    | cons c rest =>
      refine .char hcontent.symm hbytes ?_
      have hsplit : widened l.content = widened part ++ (widened [c] ++ widened rest) := by
        rw [← widened_append, ← widened_append, ← hcontent]
        rfl
      rw [hsplit, List.drop_left]
      exact List.prefix_append ..
  · rw [List.take_of_length_le (by simp)]
    refine .lineEnd ?_ rfl
    rw [hbytes, ← List.append_assoc, byteCount_append _ ['\r']]
    exact Nat.le_add_right ..

end Line

end StockFlow
