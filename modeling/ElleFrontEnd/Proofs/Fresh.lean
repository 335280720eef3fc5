import ElleFrontEnd.Proofs.TieProgram

/-!
# Reading on as from the start

At the head of a declaration, a parser that owes no `>` goes on like a fresh one.  What it has recorded stays in front
of what it records (`run_behind`), and the token read last does not matter before another one has been read
(`Unaware`, `Starts`).  So the rest of a program is read as a program of its own (`program_fresh`).
-/

namespace ElleFrontEnd

/-! ### What has been recorded -/

/-- The state, with `es` recorded before all else. -/
def ParseState.behind (es : List Diagnostic) (s : ParseState) : ParseState := { s with errors := es ++ s.errors }

theorem ParseState.advance_behind (es : List Diagnostic) (s : ParseState) :
    (s.behind es).advance = s.advance.behind es := by
  obtain ⟨last, rest, owed, errors⟩ := s
  cases rest with
  | nil => rfl
  | cons t ts =>
    unfold advance behind
    dsimp only
    split <;> rfl

/-- A state, and the same one with `es` recorded before all else. -/
def Tie.recorded (es : List Diagnostic) : Tie where
  rel s t := t = s.behind es
  gone _ := False
  near := by
    rintro s _ rfl
    rfl
  gap := by
    rintro s _ s' _ rfl rfl
    exact Nat.add_comm _ _
  within := by
    rintro s _ rfl -
    exact s.advance_behind es
  advance := by
    rintro s _ rfl
    exact .inl (s.advance_behind es)
  rewind := by
    rintro s _ s' _ rfl rfl
    rfl
  record := by
    rintro s _ e rfl
    simp [ParseState.behind]
  next := by
    rintro s _ rfl
    exact .inl rfl
  gone_of_advances := fun h _ => h

namespace Parser

variable {α β : Type} {s s' : ParseState}

/-- What is recorded when a parser starts stays in front, and changes nothing else. -/
theorem run_behind {es : List Diagnostic} {p : Parser α} (hp : (Tie.recorded es).Ties p p) (s : ParseState) :
    p.run (s.behind es) = ((p.run s).1, (p.run s).2.behind es) := by
  have := hp.ends s (s.behind es) rfl trivial
  change p (s.behind es) = ((p s).1, (p s).2.behind es)
  generalize p s = x, p (s.behind es) = y at this
  cases this with
  | same h => rw [h]
  | gone _ h => exact h.elim

theorem owing_recorded (es : List Diagnostic) : (Tie.recorded es).Owing := by
  rintro s _ n rfl
  rfl

theorem programRound_behind (es : List Diagnostic) (o : ParseOptions) :
    (Tie.recorded es).Ties (programRound o) (programRound o) := by
  have hg := settled_ofRoom o o.maxDepth
  have hdecl := Tie.Runs.declaration (Tie.tied_ofRoom (owing_recorded es) o o.maxDepth) hg
  have hnext : (Tie.recorded es).Ties (change toNextDeclaration) (change toNextDeclaration) := by
    refine ⟨?_, Alike.advances fun ts => Alike.toNextDeclaration (.refl ts)⟩
    rintro s _ rfl -
    exact .same rfl
  exact .roundOf hdecl hnext

theorem program_behind (es : List Diagnostic) (o : ParseOptions) (s : ParseState) :
    (program o).run (s.behind es) = (((program o).run s).1, ((program o).run s).2.behind es) :=
  run_behind (Tie.Runs.collectFor (programRound_behind es o) (s.peek :: s.rest)) s

/-! ### What was read last -/

/-- Unless the end comes next, the token read last matters neither for the result nor for the end; or it is the same
at the end. -/
def Unaware (p : Parser α) : Prop := ∀ (s : ParseState) (t : Option Token), s.peek.kind ≠ .eof →
  p.run { s with last := t } = p.run s ∨ ∃ r, p.run s = (r, s) ∧ p.run { s with last := t } = (r, { s with last := t })

/-- Unless the end comes next, the token read last does not matter, or the parser fails where it stands. -/
def Starts (p : Parser α) : Prop := ∀ (s : ParseState) (t : Option Token), s.peek.kind ≠ .eof →
  p.run { s with last := t } = p.run s ∨
    ∃ e, p.run s = (.error e, s) ∧ p.run { s with last := t } = (.error e, { s with last := t })

theorem peek_last (h : s.peek.kind ≠ .eof) (t : Option Token) : ({ s with last := t } : ParseState).peek = s.peek := by
  obtain ⟨ts, hr⟩ := ParseState.rest_of_peek h
  rw [ParseState.peek_cons hr, ParseState.peek_cons (s := { s with last := t }) hr]

theorem advance_last (h : s.peek.kind ≠ .eof) (t : Option Token) :
    ({ s with last := t } : ParseState).advance = s.advance := by
  obtain ⟨ts, hr⟩ := ParseState.rest_of_peek h
  rw [ParseState.advance_cons hr h, ParseState.advance_cons (s := { s with last := t }) hr h]

theorem run_bind_congr {p : Parser α} {f : α → Parser β} (h : p.run s = p.run s') :
    (p >>= f).run s = (p >>= f).run s' := by
  change andThen p f s = andThen p f s'
  unfold andThen
  rw [show p s = p s' from h]

theorem Starts.unaware {p : Parser α} (h : Starts p) : Unaware p := by
  intro s t hs
  rcases h s t hs with heq | ⟨e, h₁, h₂⟩
  · exact .inl heq
  · exact .inr ⟨_, h₁, h₂⟩

theorem Starts.bind {p : Parser α} {f : α → Parser β} (hp : Starts p) : Starts (p >>= f) := by
  intro s t hs
  rcases hp s t hs with heq | ⟨e, h₁, h₂⟩
  · exact .inl (run_bind_congr heq)
  · exact .inr ⟨e, run_bind_of_error h₁, run_bind_of_error h₂⟩

namespace Unaware

variable {p : Parser α} {f : α → Parser β}

theorem pure (a : α) : Unaware (Pure.pure a : Parser α) := fun _ _ _ => .inr ⟨_, rfl, rfl⟩

theorem bind (hp : Unaware p) (hf : ∀ a, Unaware (f a)) : Unaware (p >>= f) := by
  intro s t hs
  rcases hp s t hs with heq | ⟨r, h₁, h₂⟩
  · exact .inl (run_bind_congr heq)
  · cases r with
    | error e => exact .inr ⟨_, run_bind_of_error h₁, run_bind_of_error h₂⟩
    | ok a =>
      rw [run_bind_of_ok h₁, run_bind_of_ok h₂]
      exact hf a s t hs

theorem starts (hp : Unaware p) (hf : ∀ a, Starts (f a)) : Starts (p >>= f) := by
  intro s t hs
  rcases hp s t hs with heq | ⟨r, h₁, h₂⟩
  · exact .inl (run_bind_congr heq)
  · cases r with
    | error e => exact .inr ⟨e, run_bind_of_error h₁, run_bind_of_error h₂⟩
    | ok a =>
      rw [run_bind_of_ok h₁, run_bind_of_ok h₂]
      exact hf a s t hs

/-- A look at the tokens to read. -/
theorem look {l : ParseState → α} (hl : ∀ (s : ParseState) t, s.peek.kind ≠ .eof → l { s with last := t } = l s) :
    Unaware (Parser.look l) := by
  intro s t hs
  rw [look_run, look_run, hl s t hs]
  exact .inr ⟨_, rfl, rfl⟩

theorem nextKind : Unaware Parser.nextKind := look fun s t hs => by rw [peek_last hs]

theorem isAt (kind : TokenKind) : Unaware (Parser.isAt kind) := look fun s t hs => by rw [peek_last hs]

theorem collect {round : Parser (Round α)} (hr : Unaware round) : Unaware (Parser.collect round) := by
  have hfor (budget : List Token) : Unaware (Parser.collectFor round budget) := by
    induction budget with
    | nil => exact pure []
    | cons t budget ih =>
      refine hr.bind fun r => ?_
      cases r with
      | stop => exact pure []
      | last a => exact pure [a]
      | more a => exact ih.bind fun as => pure (a :: as)
      | none => exact ih
  intro s t hs
  have := hfor (s.peek :: s.rest) s t hs
  change collectFor round (({ s with last := t } : ParseState).peek :: s.rest) { s with last := t } = _ ∨ _
  rw [peek_last hs]
  exact this

end Unaware

namespace Starts

theorem skip : Starts Parser.skip := by
  intro s t hs
  refine .inl ?_
  change (Except.ok ({ s with last := t } : ParseState).peek.span, ({ s with last := t } : ParseState).advance) = _
  rw [peek_last hs, advance_last hs]
  rfl

theorem expect (kind : TokenKind) (wanted : Expected) : Starts (Parser.expect kind wanted) := by
  intro s t hs
  unfold run Parser.expect unexpected
  rw [peek_last hs, advance_last hs]
  split
  · exact .inl rfl
  · exact .inr ⟨_, rfl, rfl⟩

theorem noDeclaration : Starts (Parser.noDeclaration : Parser α) := by
  intro s t hs
  refine .inr ⟨_, rfl, ?_⟩
  unfold run Parser.noDeclaration
  rw [peek_last hs]

end Starts

theorem Unaware.modifierList : Unaware Parser.modifierList := by
  refine .collect ((Unaware.isAt _).bind fun _ => ?_)
  split
  · refine (Unaware.look fun _ _ _ => rfl).bind fun kind => ?_
    split <;> exact Starts.skip.bind.unaware
  · refine Unaware.nextKind.bind fun kind => ?_
    split
    · exact Starts.skip.bind.unaware
    · exact .pure _

theorem Starts.declaration (g : Inner) : Starts (Parser.declaration g) := by
  have hform : Starts (declarationForm g) := by
    refine Unaware.nextKind.starts fun kind => ?_
    split
    · exact (Starts.expect _ _).bind.bind
    · exact (Starts.expect _ _).bind.bind
    · exact Starts.skip.bind.bind
    refine Unaware.modifierList.starts fun modifiers => Unaware.nextKind.starts fun kind => ?_
    split
    · exact (Starts.expect _ _).bind.bind
    · exact (Starts.expect _ _).bind.bind
    · exact (Starts.expect _ _).bind.bind
    · exact .noDeclaration
  exact (Unaware.look fun s t hs => by rw [peek_last hs]).starts fun _ => hform.bind

/-! ### The rest of a program -/

/-- What is skipped first is the token that comes next. -/
theorem skipDeclaration_last {t : Token} (ht : t.kind ≠ .eof) (ts : List Token) (last last' : Option Token) :
    skipDeclaration false 0 last (t :: ts) = skipDeclaration false 0 last' (t :: ts) := by
  unfold skipDeclaration
  simp only [Bool.and_false, Bool.false_and, Bool.false_eq_true, if_false]
  split <;> first | contradiction | rfl

variable {o : ParseOptions}

/-- A round goes on in the same way, whatever token was read last, or stops in the same way. -/
theorem programRound_unaware (he : s.atEnd = false) (t : Option Token) :
    (programRound o).run { s with last := t } = (programRound o).run s ∨
      ∃ s₁ s₂, (programRound o).run s = (.ok .stop, s₁) ∧ (programRound o).run { s with last := t } = (.ok .stop, s₂) ∧
        s₁.errors = s₂.errors := by
  have hk : s.peek.kind ≠ .eof := fun hk => by simp [ParseState.atEnd, hk, TokenKind.isEof] at he
  have he' : ({ s with last := t } : ParseState).atEnd = false := by
    unfold ParseState.atEnd at he ⊢
    rwa [peek_last hk]
  by_cases hsemi : s.peek.kind = .punctuation .semicolon
  · rw [programRound_stray hsemi, programRound_stray (by rw [peek_last hk]; exact hsemi), advance_last hk]
    exact .inl rfl
  have hsemi' : ({ s with last := t } : ParseState).peek.kind ≠ .punctuation .semicolon := by rwa [peek_last hk]
  rcases Starts.declaration (Inner.ofRoom o o.maxDepth) s t hk with heq | ⟨e, h₁, h₂⟩
  · rcases hd : (declaration (Inner.ofRoom o o.maxDepth)).run s with ⟨e | d, s₁⟩ <;> rw [hd] at heq
    · rw [programRound_error he hsemi hd, programRound_error he' hsemi' heq]
      exact .inl rfl
    · rw [programRound_more.2 ⟨he, hsemi, hd⟩, programRound_more.2 ⟨he', hsemi', heq⟩]
      exact .inl rfl
  · -- the declaration has failed where it began, and what is skipped begins with the token there
    rw [programRound_error he hsemi h₁, programRound_error he' hsemi' h₂]
    split
    · left
      obtain ⟨ts, hr⟩ := ParseState.rest_of_peek hk
      simp only [toNextDeclaration]
      rw [hr, skipDeclaration_last hk ts t s.last]
    · exact .inr ⟨_, _, rfl, rfl, rfl⟩

theorem program_atEnd (he : s.atEnd = true) : (program o).run s = (.ok [], s) := by
  have hround : (programRound o).run s = (.ok .stop, s) := by
    unfold programRound atEnd
    rw [look_bind, he]
    rfl
  change (collectFor (programRound o) (s.peek :: s.rest)).run s = _
  unfold collectFor
  rw [run_bind_of_ok hround]
  rfl

/-- A program is read in the same way, whatever token was read last. -/
theorem program_unaware (s : ParseState) (t : Option Token) :
    ((program o).run { s with last := t }).1 = ((program o).run s).1 ∧
      ((program o).run { s with last := t }).2.errors = ((program o).run s).2.errors := by
  by_cases he : s.atEnd = true
  · have he' : ({ s with last := t } : ParseState).atEnd = true := by
      unfold ParseState.atEnd ParseState.peek at he ⊢
      cases hr : s.rest with
      | nil => rfl
      | cons u us =>
        rw [hr] at he
        exact he
    rw [program_atEnd he, program_atEnd he']
    exact ⟨rfl, rfl⟩
  have hk : s.peek.kind ≠ .eof := fun hk => he (by simp [ParseState.atEnd, hk, TokenKind.isEof])
  change ((collectFor (programRound o) (({ s with last := t } : ParseState).peek :: s.rest)).run
    { s with last := t }).1 =
      ((collectFor (programRound o) (s.peek :: s.rest)).run s).1 ∧
    ((collectFor (programRound o) (({ s with last := t } : ParseState).peek :: s.rest)).run
      { s with last := t }).2.errors =
      ((collectFor (programRound o) (s.peek :: s.rest)).run s).2.errors
  rw [peek_last hk]
  unfold collectFor
  rcases programRound_unaware (by simpa using he) t with heq | ⟨s₁, s₂, h₁, h₂, herr⟩
  · rw [run_bind_congr heq]
    exact ⟨rfl, rfl⟩
  · rw [run_bind_of_ok h₁, run_bind_of_ok h₂]
    exact ⟨rfl, herr.symm⟩

/-- Where no `>` is owed, the rest of a program is read as a fresh parser reads it. -/
theorem program_fresh (ho : s.owed = 0) :
    ((program o).run s).1 = ((program o).run { rest := s.rest }).1 ∧
      ((program o).run s).2.errors = s.errors ++ ((program o).run { rest := s.rest }).2.errors := by
  obtain ⟨last, rest, owed, errors⟩ := s
  obtain rfl : owed = 0 := ho
  have hbehind := program_behind errors o { last, rest }
  have hs : ({ last, rest } : ParseState).behind errors = { last, rest, owed := 0, errors } := by
    simp [ParseState.behind]
  obtain ⟨hresult, herrors⟩ := program_unaware (o := o) { rest } last
  rw [hs] at hbehind
  rw [hbehind]
  exact ⟨hresult, congrArg (errors ++ ·) herrors⟩

end Parser

/-- What a parse returns that gets to a place where no `>` is owed, and goes on from there with what comes to `f`. -/
theorem parsePartial_of_run {o : ParseOptions} {ts : List Token} {s : ParseState}
    {f : List Declaration → List Declaration} (ho : s.owed = 0)
    (h : (Parser.program o).run { rest := ts } =
      (do let ds ← Parser.program o; pure (f ds) : Parser (List Declaration)).run s) :
    parsePartial ts o =
      (⟨f (parsePartial s.rest o).1.declarations⟩, s.errors ++ (parsePartial s.rest o).2) := by
  obtain ⟨ds, s₁, hfresh⟩ := Parser.program_total o { rest := s.rest }
  obtain ⟨hresult, herrors⟩ := Parser.program_fresh (o := o) ho
  rcases hrun : (Parser.program o).run s with ⟨r, s₂⟩
  rw [hrun, hfresh] at hresult herrors
  obtain rfl : r = .ok ds := hresult
  have hwhole : Parser.program o { rest := ts } = (.ok (f ds), s₂) := h.trans (Parser.run_bind_of_ok hrun)
  have hrest : Parser.program o { rest := s.rest } = (.ok ds, s₁) := hfresh
  unfold parsePartial
  rw [hwhole, hrest]
  exact congrArg (Prod.mk _) herrors

end ElleFrontEnd
