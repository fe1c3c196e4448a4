import StockFlow.Proofs.Resumption

/-!
# Where errors are found

Whatever is wrong is wrong at the start of a token, of which the error speaks, or at the end of the
text.

* `Stream.FoundAhead` — an error at a place further on
* `Stream.foundAhead_body`, `Stream.foundAhead_declarations` — the errors of bodies and declarations
* `File.faults_ofStream`, `File.found_of_mem_errors` — all errors of a file and of a text
-/

namespace StockFlow

namespace Stream

variable {s t : Stream} {e : SyntaxError} {α : Type} {n m : Nat}

/-- **An error at a place further on.** -/
def FoundAhead (s : Stream) (e : SyntaxError) : Prop := ∃ t, s.Onward t ∧ e.IsAt t

namespace FoundAhead

theorem of_onward (h : t.FoundAhead e) (hst : s.Onward t) : s.FoundAhead e := by
  obtain ⟨u, hu, he⟩ := h
  exact ⟨u, hst.trans hu, he⟩

theorem unexpected (s : Stream) {wanted : Wanted} (hw : wanted.isFixed = true) :
    s.FoundAhead (s.unexpected wanted) :=
  ⟨s, .refl s, isAt_unexpected s hw⟩

theorem of_stops (h : Stops s (.error e : Parse α n)) : s.FoundAhead e := by
  cases h with
  | error h he => exact ⟨_, h.onward, he⟩

theorem of_halts {stuck : Stuck m} (h : Halts s (.error stuck : Except (Stuck m) (Parsed α n))) :
    s.FoundAhead stuck.error ∧ s.Onward stuck.stream := by
  cases h with
  | error h he => exact ⟨⟨_, h.onward, he⟩, h.onward⟩

end FoundAhead

theorem onward_of_halts {a : α} {ht : t.size < n}
    (h : Halts s (.ok ⟨a, t, ht⟩ : Except (Stuck m) (Parsed α n))) : s.Onward t := by
  cases h with
  | ok h => exact h.onward

theorem onward_take? {w : Token} {r : Parsed Span s.size} (h : s.take? w = some r) :
    s.Onward r.stream := by
  unfold take? at h
  split at h
  · next l s₁ hlt hnext =>
    split at h
    · cases h
      exact .of_next? hnext
    · cases h
  · cases h

/-! ## Bodies and declarations -/

/-- **The errors of a body** are found in it or where it ends. -/
theorem foundAhead_body (s : Stream) : ∀ e ∈ s.body.errors, s.FoundAhead e := by
  have hdropped : ∀ {s t : Stream} {ht}, s.dropTerminators = ⟨(), t, ht⟩ → s.Onward t := by
    intro s t ht h
    have hdrop := (passes_dropTerminators s).onward
    rwa [h] at hdrop
  fun_induction body s with
  | case1 s _ s₀ hlt hdrop | case3 s _ s₀ hlt hdrop =>
    exact List.forall_mem_singleton.mpr ((FoundAhead.unexpected s₀ rfl).of_onward (hdropped hdrop))
  | case2 => exact List.forall_mem_nil _
  | case4 s _ s₀ hlt hdrop r hnext _ _ stmt s₂ hs₂ hstmt more ih =>
    have hstops := stops_statement s₀
    rw [hstmt] at hstops
    cases hstops with
    | ok h => exact fun e he => (ih e he).of_onward ((hdropped hdrop).trans h.onward)
  | case5 s _ s₀ hlt hdrop r hnext _ _ e hstmt _ more ih =>
    have hstops := stops_statement s₀
    rw [hstmt] at hstops
    refine List.forall_mem_cons.mpr
      ⟨(FoundAhead.of_stops hstops).of_onward (hdropped hdrop), fun e he => ?_⟩
    exact (ih e he).of_onward ((hdropped hdrop).trans (passes_skipStatement 0 s₀).onward)

theorem foundAhead_modelDecl (start : Pos) (make : ModelDecl → Decl) (s : Stream) :
    ∀ e ∈ (s.modelDecl start make).errors, s.FoundAhead e := by
  have hhalts := halts_modelHead s
  unfold modelDecl
  generalize s.modelHead = head at hhalts ⊢
  cases hhalts with
  | error h he => exact List.forall_mem_singleton.mpr ⟨_, h.onward, he⟩
  | @ok head s₁ hs₁ h =>
    have hbody : ∀ e ∈ s₁.body.errors, s.FoundAhead e := fun e he =>
      (foundAhead_body s₁ e he).of_onward h.onward
    simp only
    split <;> exact hbody

theorem foundAhead_declaration {first : Parsed Lexeme s.size} (hnext : s.next? = some first) :
    ∀ e ∈ (s.declaration first).errors, s.FoundAhead e := by
  have hfirst : s.Onward first.stream := .of_next? hnext
  unfold declaration
  simp only
  split
  · exact fun e he => (foundAhead_modelDecl _ _ _ e he).of_onward hfirst
  · exact fun e he => (foundAhead_modelDecl _ _ _ e he).of_onward hfirst
  · have hhalts := halts_kindDecl first.value.span.start first.stream
    split
    · exact List.forall_mem_nil _
    · next stuck hstuck =>
      rw [hstuck] at hhalts
      exact List.forall_mem_singleton.mpr ((FoundAhead.of_halts hhalts).1.of_onward hfirst)
  · exact List.forall_mem_singleton.mpr (.unexpected s rfl)

/-- **The errors of declarations** are found where they are begun or further on. -/
theorem foundAhead_declarations (s : Stream) : ∀ e ∈ s.declarations.2, s.FoundAhead e := by
  rw [declarations_eq]
  intro e he
  obtain ⟨w, hw, he⟩ := List.mem_flatMap.mp he
  refine FoundAhead.of_onward ?_ (onward_of_mem_begun hw)
  cases hnext : w.next? with
  | none =>
    rw [declErrors, read?, hnext] at he
    cases he
  | some first =>
    rw [declErrors, read?_eq hnext] at he
    exact foundAhead_declaration hnext e he

/-! ## Package and imports -/

theorem halts_packageName (s : Stream) : Halts s s.packageName := by
  unfold packageName
  refine (halts_orStuck (stops_identifier s) fun e => isAt_identifier).bind fun name s₁ hs₁ => ?_
  refine (halts_orStuck (stops_terminator s₁) fun e => isAt_terminator).bind fun _ s₂ hs₂ => ?_
  exact .ok (.refl s₂)

theorem isAt_path (h : s.path = .error e) : e.IsAt s := by
  unfold path at h
  split at h <;> cases h
  exact isAt_unexpected s rfl

theorem stops_path (s : Stream) : Stops s s.path := by
  unfold path
  split
  · next hnext => exact .ok (passes_next? hnext rfl)
  · exact stops_unexpected s rfl

theorem halts_importPath (s : Stream) : Halts s s.importPath := by
  unfold importPath
  refine (halts_orStuck (stops_path s) fun e => isAt_path).bind fun path s₁ hs₁ => ?_
  refine (halts_orStuck (stops_terminator s₁) fun e => isAt_terminator).bind fun _ s₂ hs₂ => ?_
  exact .ok (.refl s₂)

/-- What is found wrong in a part of a file is found further on, and so is what is left of it. -/
def PartAhead (s : Stream) (r : Part α) : Prop :=
  (∀ e ∈ r.errors, s.FoundAhead e) ∧ s.Onward r.stream

theorem PartAhead.of_onward {r : Part α} (h : t.PartAhead r) (hst : s.Onward t) : s.PartAhead r :=
  ⟨fun e he => (h.1 e he).of_onward hst, hst.trans h.2⟩

theorem partAhead_package (s : Stream) : s.PartAhead s.package := by
  have hdrop := (passes_dropTerminators s).onward
  unfold package
  generalize s.dropTerminators = skipped at hdrop ⊢
  obtain ⟨_, s₀, hs₀⟩ := skipped
  refine PartAhead.of_onward ?_ hdrop
  simp only
  split
  · exact ⟨List.forall_mem_nil _, .refl s₀⟩
  · next key s₁ hs₁ hkey =>
    refine PartAhead.of_onward ?_ (onward_take? hkey)
    have hhalts := halts_packageName s₁
    split
    · next hname =>
      rw [hname] at hhalts
      exact ⟨List.forall_mem_nil _, onward_of_halts hhalts⟩
    · next stuck hstuck =>
      rw [hstuck] at hhalts
      obtain ⟨hfound, honward⟩ := FoundAhead.of_halts hhalts
      exact ⟨List.forall_mem_singleton.mpr hfound, honward.trans (onward_giveUp _)⟩

theorem partAhead_imports (s : Stream) : s.PartAhead s.imports := by
  rw [imports]
  have hdrop := (passes_dropTerminators s).onward
  generalize s.dropTerminators = skipped at hdrop ⊢
  obtain ⟨_, s₀, hs₀⟩ := skipped
  refine PartAhead.of_onward ?_ hdrop
  simp only
  split
  · exact ⟨List.forall_mem_nil _, .refl s₀⟩
  · next key s₁ hs₁ hkey =>
    refine PartAhead.of_onward ?_ (onward_take? hkey)
    have hhalts := halts_importPath s₁
    split
    · next path s₂ hs₂ hpath =>
      rw [hpath] at hhalts
      have hlt : s₂.size < s.size := by omega
      obtain ⟨herrors, hleft⟩ := (partAhead_imports s₂).of_onward (onward_of_halts hhalts)
      exact ⟨herrors, hleft⟩
    · next stuck hstuck =>
      rw [hstuck] at hhalts
      have hle := size_giveUp_le stuck.stream
      have hlt := stuck.lt
      obtain ⟨hfound, honward⟩ := FoundAhead.of_halts hhalts
      obtain ⟨herrors, hleft⟩ :=
        (partAhead_imports stuck.stream.giveUp).of_onward (honward.trans (onward_giveUp _))
      exact ⟨List.forall_mem_cons.mpr ⟨hfound, herrors⟩, hleft⟩
termination_by s.size

/-- A place further on is the start of a token or the end of the text. -/
theorem here_of_onward (h : s.Onward t) :
    (∃ l ∈ s.rest, t.here = l.span.start) ∨ t.here = s.stop := by
  have hsuffix := h.suffix
  unfold here
  split
  · exact Or.inr hsuffix.2
  · next l more hrest => exact Or.inl ⟨l, hsuffix.1.mem (hrest ▸ List.mem_cons_self ..), rfl⟩

end Stream

namespace File

/-- **All errors of a file are found in its tokens** or at the end of the text. -/
theorem faults_ofStream (s : Stream) : ∀ e ∈ (ofStream s).errors, s.FoundAhead e := by
  obtain ⟨hpackage, honward⟩ := s.partAhead_package
  obtain ⟨himports, honward'⟩ := s.package.stream.partAhead_imports
  simp only [ofStream]
  refine List.forall_mem_append.mpr ⟨List.forall_mem_append.mpr ⟨hpackage, ?_⟩, ?_⟩
  · exact fun e he => (himports e he).of_onward honward
  · exact fun e he =>
      (Stream.foundAhead_declarations _ e he).of_onward (honward.trans honward')

/-- An error of a text is the one that stopped the scanner, or is found in the tokens. -/
theorem found_of_mem_errors {text : String} {e : SyntaxError} (he : e ∈ (parse text).errors) :
    (Scan.ofText text).error = some e ∨
      Stream.FoundAhead ⟨(Scan.ofText text).lexemes, Pos.start, Pos.ofEnd text⟩ e := by
  unfold parse at he
  simp only at he
  split at he
  · next e' he' => exact .inl (List.mem_singleton.mp he ▸ he')
  · exact .inr (faults_ofStream _ e he)

end File

end StockFlow
