import ElleFrontEnd.Proofs.Fresh
import ElleFrontEnd.Proofs.Ready

/-!
# A declaration without its semicolon

An import, a `global` line or a `namespace` line that lacks its semicolon fails at the token behind it.  Reading goes
on at the next place where a declaration may begin, but the token the failure stopped at is skipped in any case.  If
it opens a declaration, that declaration is lost, or loses what stands before its next word that may open one
(`parsePartial_missingSemicolon`).
-/

namespace ElleFrontEnd

/-- The declarations that are a line ended by a semicolon: imports, options and the name of the module. -/
def Declaration.isLine : Declaration → Bool
  | .importModule .. | .globalOptions .. | .moduleName .. => true
  | _ => false

/-- A semicolon is missing at `found`, behind what ends at `stop`. -/
def missingSemicolon (stop : Nat) (found : Token) : Diagnostic where
  cause := .unexpected (.punctuation .semicolon) found.kind
  span := found.span
  notes := [.previousEndsAt stop]
  hints := [.addSemicolon]

/-- Where reading goes on after a failure at the first of some tokens. -/
def resumption (tokens : List Token) : List Token := (Parser.skipDeclaration false 0 none tokens).2

/-- Two states that read the same tokens first, among them no semicolon.  Behind these, the one finds `semi`, the other
`us`. -/
def Forks (semi : Token) (us : List Token) (s t : ParseState) : Prop :=
  ∃ ts, (∀ u ∈ ts, u.kind ≠ .punctuation .semicolon) ∧ s.rest = ts ++ [semi] ∧ t = { s with rest := ts ++ us }

namespace Forks

variable {semi : Token} {us : List Token} {s t : ParseState} (hsemi : semi.kind = .punctuation .semicolon)
  (h : Forks semi us s t)
include hsemi h

/-- Before the semicolon, the next token is the same. -/
theorem next (hk : s.peek.kind ≠ .punctuation .semicolon) :
    t.peek = s.peek ∧ Forks semi us s.advance t.advance := by
  obtain ⟨ts, hts, hr, rfl⟩ := h
  cases ts with
  | nil => exact absurd (by rw [ParseState.peek_cons hr]; exact hsemi) hk
  | cons u ts =>
    have hr' : ({ s with rest := u :: ts ++ us } : ParseState).rest = u :: (ts ++ us) := rfl
    refine ⟨by rw [ParseState.peek_cons hr', ParseState.peek_cons hr], ?_⟩
    by_cases he : u.kind = .eof
    · rw [ParseState.advance_eof (by rw [ParseState.peek_cons hr]; exact he),
        ParseState.advance_eof (by rw [ParseState.peek_cons hr']; exact he)]
      exact ⟨_, hts, hr, rfl⟩
    · rw [ParseState.advance_cons hr he, ParseState.advance_cons hr' he]
      exact ⟨ts, fun x hx => hts x (List.mem_cons_of_mem _ hx), rfl, rfl⟩

omit hsemi in
/-- At the semicolon, the other state has come to `us`. -/
theorem rest_eq (hk : s.peek.kind = .punctuation .semicolon) : t.rest = us := by
  obtain ⟨ts, hts, hr, rfl⟩ := h
  cases ts with
  | nil => rfl
  | cons u ts =>
    rw [ParseState.peek_cons hr] at hk
    exact absurd hk (hts u List.mem_cons_self)

end Forks

namespace Parser

variable {α β : Type} {semi u : Token} {us : List Token} {s s₁ s' t : ParseState}

/-- A parser that reads one token, by what the token is, and no semicolon. -/
def Single (item : Parser α) : Prop := ∀ s a s', item.run s = (.ok a, s') →
  s.peek.kind ≠ .punctuation .semicolon ∧ s' = s.advance ∧
    ∀ t : ParseState, t.peek = s.peek → item.run t = (.ok a, t.advance)

theorem single_pathSegment : Single pathSegment := by
  intro s segment s' h
  obtain ⟨rfl, hk⟩ := pathSegment_ok.1 h
  refine ⟨?_, rfl, fun t ht => pathSegment_ok.2 ⟨rfl, by rw [ht]; exact hk⟩⟩
  rcases hk with ⟨k, hk, -⟩ | hk <;> simp [hk]

theorem single_globalOption : Single globalOption := by
  intro s option s' h
  obtain ⟨rfl, hk⟩ := globalOption_ok.1 h
  refine ⟨?_, rfl, fun t ht => globalOption_ok.2 ⟨rfl, by rw [ht]; exact hk⟩⟩
  intro hsemi
  simp [hsemi, TokenKind.visibility?] at hk

/-- A list up to the semicolon is read in the same way up to what stands in its place. -/
theorem listed_of_forks {separator : TokenKind} {item : Parser α} {as : List α}
    (hsemi : semi.kind = .punctuation .semicolon) (hi : Single item) (hsep : separator ≠ .punctuation .semicolon)
    (hu : u.kind ≠ separator) (hf : Forks semi (u :: us) s t) (h : SeparatedListed separator item s as s₁)
    (hk : s₁.peek.kind = .punctuation .semicolon) :
    ∃ t₁, SeparatedListed separator item t as t₁ ∧ t₁.rest = u :: us := by
  induction h generalizing t with
  | nil he => exact he.elim
  | last _ ha hs =>
    obtain ⟨hne, rfl, hitem⟩ := hi _ _ _ ha
    obtain ⟨hpeek, hadv⟩ := hf.next hsemi hne
    have hr := hadv.rest_eq hk
    refine ⟨_, .last id (hitem _ hpeek) ?_, hr⟩
    rwa [ParseState.peek_cons hr]
  | more _ ha hs _ ih =>
    obtain ⟨hne, rfl, hitem⟩ := hi _ _ _ ha
    obtain ⟨hpeek, hadv⟩ := hf.next hsemi hne
    obtain ⟨hpeek', hadv'⟩ := hadv.next hsemi (by rw [hs]; exact hsep)
    obtain ⟨t₁, hl, hr⟩ := ih hadv' hk
    exact ⟨t₁, .more id (hitem _ hpeek) (by rw [hpeek']; exact hs) hl, hr⟩

/-- The parser reads on up to `u` and `us`, where it misses a semicolon. -/
def Misses (u : Token) (us : List Token) (p : Parser α) (t : ParseState) : Prop :=
  ∃ t₁, Ready t₁ ∧ t₁.rest = u :: us ∧ p.run t = (.error (missingSemicolon t₁.readStop u), t₁)

namespace Misses

variable {p : Parser α} {f : α → Parser β}

theorem semicolon (ht : Ready t) (hr : t.rest = u :: us) (hu : u.kind ≠ .punctuation .semicolon) :
    Misses u us Parser.semicolon t := by
  refine ⟨t, ht, hr, ?_⟩
  unfold run Parser.semicolon missingSemicolon
  rw [ParseState.peek_cons hr, if_neg hu]

theorem bind (h : Misses u us p t) : Misses u us (p >>= f) t := by
  obtain ⟨t₁, ht₁, hr, h⟩ := h
  exact ⟨t₁, ht₁, hr, run_bind_of_error h⟩

theorem behind {a : α} {t₁ : ParseState} (hp : p.run t = (.ok a, t₁)) (h : Misses u us (f a) t₁) :
    Misses u us (p >>= f) t := by
  obtain ⟨t₂, ht₂, hr, h⟩ := h
  exact ⟨t₂, ht₂, hr, (run_bind_of_ok hp).trans h⟩

end Misses

section
variable (hsemi : semi.kind = .punctuation .semicolon) (hu : u.kind ≠ .punctuation .semicolon)
  (hf : Forks semi (u :: us) s t) (ht : Ready t)
include hsemi hu hf ht

/-- A list of items that stand alone, up to its semicolon. -/
theorem misses_list {word : Keyword} {separator : TokenKind} {item : Parser α} {as : List α} {f : List α → Parser β}
    (hi : Single item) (hkeeps : item.Keeps) (hadv : ∀ s, Advances s (item s).2)
    (hsep : separator ≠ .punctuation .semicolon) (heof : separator ≠ .eof) (hus : u.kind ≠ separator)
    (hk : s.peek.kind = .keyword word) (hl : SeparatedListed separator item s.advance as s₁)
    (hk₁ : s₁.peek.kind = .punctuation .semicolon) :
    Misses u us
      (do
        let _ ← expectKeyword word
        let items ← separatedBy separator item
        Parser.semicolon
        f items) t := by
  obtain ⟨hpeek, hf'⟩ := hf.next hsemi (by simp [hk])
  obtain ⟨t₁, hl₁, hr⟩ := listed_of_forks hsemi hi hsep hus hf' hl hk₁
  have hword : (expectKeyword word).run t = (.ok t.peek.span, t.advance) :=
    expect_ok.2 ⟨by rw [hpeek]; exact hk, rfl, rfl⟩
  refine .behind hword (.behind ((separatedBy_ok heof hadv).2 hl₁) (.bind ?_))
  exact .semicolon (hkeeps.listed ht.advance hl₁) hr hu

theorem misses_moduleLine {name : String} (hk : s.peek.kind = .keyword .namespaceKw)
    (h : moduleLine.run s = (.ok name, s')) : Misses u us moduleLine t := by
  obtain ⟨hname, hk₂, -⟩ := moduleLine_ok.1 h
  obtain ⟨hpeek, hf₁⟩ := hf.next hsemi (by simp [hk])
  obtain ⟨hpeek₁, hf₂⟩ := hf₁.next hsemi (by simp [hname])
  have hskip : Parser.skip.run t = (.ok t.peek.span, t.advance) := rfl
  refine .behind hskip (.behind (identifier_ok.2 ⟨by rw [hpeek₁]; exact hname, rfl⟩) (.bind ?_))
  exact .semicolon ht.advance.advance (hf₂.rest_eq hk₂) hu

/-- A line without its semicolon fails at the token behind it. -/
theorem misses_declaration {g : Inner} {d : Declaration} (hslash : u.kind ≠ .operator .slash)
    (hcomma : u.kind ≠ .punctuation .comma) (hline : d.isLine = true)
    (h : (Parser.declaration g).run s = (.ok d, s')) : Misses u us (Parser.declaration g) t := by
  obtain ⟨form, hform, rfl⟩ := declaration_ok.1 h
  have hstart : nextStart.run t = (.ok t.peek.span.start, t) := rfl
  have hkind : nextKind.run t = (.ok t.peek.kind, t) := rfl
  refine .behind hstart (.bind (.behind hkind ?_))
  rcases declarationForm_ok.1 hform with ⟨hk, path, h, -⟩ | ⟨hk, options, h, -⟩ | ⟨hk, name, h, -⟩ | ⟨-, -, -, h⟩
  · rw [(hf.next hsemi (by simp [hk])).1, hk]
    obtain ⟨-, s₁, hl, hk₁, -⟩ := importPath_ok.1 h
    refine .bind (misses_list hsemi hu hf ht single_pathSegment keeps_pathSegment advances_pathSegment ?_ ?_ hslash
      hk hl hk₁) <;>
      simp
  · rw [(hf.next hsemi (by simp [hk])).1, hk]
    obtain ⟨-, s₁, hl, hk₁, -⟩ := globalLine_ok.1 h
    refine .bind (misses_list hsemi hu hf ht single_globalOption keeps_globalOption advances_globalOption ?_ ?_
      hcomma hk hl hk₁) <;>
      simp
  · rw [(hf.next hsemi (by simp [hk])).1, hk]
    exact .bind (misses_moduleLine hsemi hu hf ht hk h)
  · -- no other declaration is a line
    obtain ⟨ms, s₁, -, ⟨-, f, -, rfl⟩ | ⟨-, c, -, rfl⟩ | ⟨-, d, -, rfl⟩⟩ := modifiedForm_ok.1 h
    · unfold functionForm at hline
      split at hline <;> simp [Declaration.isLine] at hline
    · simp [Declaration.isLine] at hline
    · simp [Declaration.isLine] at hline

end

end Parser

theorem ne_of_opensDeclaration {kind next : TokenKind} (h : Parser.opensDeclaration kind next = true) :
    kind ≠ .eof ∧ kind ≠ .punctuation .semicolon ∧ kind ≠ .punctuation .comma ∧ kind ≠ .operator .slash := by
  refine ⟨?_, ?_, ?_, ?_⟩ <;> rintro rfl <;> simp [Parser.opensDeclaration] at h

namespace Parser

/-- A program of one declaration begins with it, unless a stray semicolon comes first. -/
theorem declaration_of_declared {g : Inner} {ts : List Token} {semi : Token} {d : Declaration} {s' : ParseState}
    (hts : ∀ t ∈ ts, t.kind ≠ .punctuation .semicolon) (hsemi : semi.kind = .punctuation .semicolon)
    (h : Declared g { rest := ts ++ [semi] } [d] s') :
    ts ≠ [] ∧ ({ rest := ts ++ [semi] } : ParseState).atEnd = false ∧
      ∃ s₁, (Parser.declaration g).run { rest := ts ++ [semi] } = (.ok d, s₁) := by
  have hne : ts ≠ [] := by
    rintro rfl
    have hr : ({ rest := [] ++ [semi] } : ParseState).rest = semi :: [] := rfl
    cases h with
    | stray _ hrest =>
      -- behind the semicolon there is nothing to read
      rw [ParseState.advance_cons hr (by simp [hsemi])] at hrest
      cases hrest with
      | stray hk _ => simp [ParseState.peek, ParseState.eof] at hk
      | cons he _ _ _ => simp [ParseState.atEnd, ParseState.peek, ParseState.eof, TokenKind.isEof] at he
    | cons _ hk _ _ =>
      rw [ParseState.peek_cons hr] at hk
      exact hk hsemi
  obtain ⟨t, ts, rfl⟩ := List.exists_cons_of_ne_nil hne
  have hr : ({ rest := t :: ts ++ [semi] } : ParseState).rest = t :: (ts ++ [semi]) := rfl
  cases h with
  | stray hk _ =>
    rw [ParseState.peek_cons hr] at hk
    exact absurd hk (hts t List.mem_cons_self)
  | cons he _ hd _ => exact ⟨hne, he, _, hd⟩

end Parser

/-- Where an import, options or a module name lack their semicolon before a declaration, the semicolon is reported, and
the rest is read from the next place behind the head of that declaration where another may begin. -/
theorem parsePartial_missingSemicolon {ts us : List Token} {semi u : Token} {o : ParseOptions} {d : Declaration}
    (hrec : o.recover = true) (hline : d.isLine = true) (hsemi : semi.kind = .punctuation .semicolon)
    (hts : ∀ t ∈ ts, t.kind ≠ .punctuation .semicolon) (hd : parseTokens (ts ++ [semi]) o = .ok ⟨[d]⟩)
    (hu : Parser.opensDeclaration u.kind ((us.head?.map Token.kind).getD .eof) = true) :
    parsePartial (ts ++ u :: us) o =
      ((parsePartial (resumption (u :: us)) o).1,
        missingSemicolon ((ts.getLast?.map fun t => t.span.stop).getD 0) u ::
          (parsePartial (resumption (u :: us)) o).2) := by
  obtain ⟨hne, hnsemi, hncomma, hnslash⟩ := ne_of_opensDeclaration hu
  obtain ⟨s', -, hdecls⟩ := parseTokens_ok.1 hd
  obtain ⟨hts', he, s₁, hrun⟩ := Parser.declaration_of_declared hts hsemi hdecls
  have hforks : Forks semi (u :: us) { rest := ts ++ [semi] } { rest := ts ++ u :: us } := ⟨ts, hts, rfl, rfl⟩
  obtain ⟨t₁, ⟨hclean, howed⟩, hrest, hmissed⟩ :=
    Parser.misses_declaration hsemi hnsemi hforks ⟨rfl, rfl⟩ hnslash hncomma hline hrun
  -- what has been read then is `ts`
  have hstop : t₁.readStop = (ts.getLast?.map fun t => t.span.stop).getD 0 := by
    have hadv := Parser.advances_run (Alike.advances fun ts => Alike.declaration (.refl ts)
      ((settled_ofRoom o o.maxDepth).steady ts)) hmissed
    obtain ⟨⟨used, hused⟩, -⟩ := hadv
    have hr : ts ++ u :: us = used ++ u :: us := hrest ▸ hused.rest
    obtain rfl : ts = used := List.append_cancel_right hr
    have hlast : t₁.last = some (ts.getLast hts') := by
      rw [hused.last, List.getLast?_eq_some_getLast hts']
      rfl
    unfold ParseState.readStop
    rw [hlast, List.getLast?_eq_some_getLast hts']
    rfl
  obtain ⟨t, ts, rfl⟩ := List.exists_cons_of_ne_nil hts'
  have hround := Parser.programRound_error (o := o) (s := { rest := t :: ts ++ u :: us }) he
    (hts t List.mem_cons_self) hmissed
  rw [if_pos hrec, hstop] at hround
  have hskipped : (Parser.skipDeclaration false 0 t₁.last t₁.rest).2 = resumption (u :: us) := by
    rw [hrest, Parser.skipDeclaration_last hne us t₁.last none]
    rfl
  generalize hs₂ : Parser.toNextDeclaration _ = s₂ at hround
  have howed₂ : s₂.owed = 0 := by rw [← hs₂]; exact howed
  have hrest₂ : s₂.rest = resumption (u :: us) := by rw [← hs₂]; exact hskipped
  have herrors₂ : s₂.errors = [missingSemicolon (((t :: ts).getLast?.map fun t => t.span.stop).getD 0) u] := by
    rw [← hs₂]
    simp [Parser.toNextDeclaration, hclean]
  have hnext : (Parser.program o).run { rest := t :: ts ++ u :: us } = (Parser.program o).run s₂ :=
    Parser.collect_none (Parser.programRound_shrinks o) hround
  rw [parsePartial_of_run (f := id) howed₂ (hnext.trans (Parser.bind_pure_run _ s₂).symm), hrest₂, herrors₂]
  rfl

theorem line_of_isLine {ts : List Token} {o : ParseOptions}
    (h : (parseTokens ts o).toOption.map (fun p => p.declarations.map Declaration.isLine) = some [true]) :
    ∃ d, d.isLine = true ∧ parseTokens ts o = .ok ⟨[d]⟩ := by
  cases hp : parseTokens ts o with
  | error errors => simp [hp, Except.toOption] at h
  | ok p =>
    obtain ⟨ds⟩ := p
    obtain ⟨d, hd, hline⟩ : ∃ d, ds = [d] ∧ d.isLine = true := by simpa [hp, Except.toOption] using h
    exact ⟨d, hline, by rw [hd]⟩

/-- An import without its semicolon. -/
def openImport : List Token := (lex "use a").tokens.dropLast

/-- The semicolon that it lacks. -/
def importEnd : Token := { kind := .punctuation .semicolon, span := ⟨5, 6⟩, pos := .first }

/-- Two functions. -/
def twoFunctions : List Token := (lex "fn f() { g(); } fn g() {}").tokens

/-- The first function is lost, and the second is read. -/
theorem parsePartial_missingSemicolon_twoFunctions :
    ∃ d, d.isLine = true ∧ parseTokens (openImport ++ [importEnd]) {} = .ok ⟨[d]⟩ ∧
      ∃ u us, twoFunctions = u :: us ∧ (parsePartial (resumption (u :: us)) {}).1.declarations.length = 1 ∧
        parsePartial (openImport ++ u :: us) {} =
          ((parsePartial (resumption (u :: us)) {}).1,
            missingSemicolon ((openImport.getLast?.map fun t => t.span.stop).getD 0) u ::
              (parsePartial (resumption (u :: us)) {}).2) := by
  obtain ⟨d, hline, hd⟩ : ∃ d, d.isLine = true ∧ parseTokens (openImport ++ [importEnd]) {} = .ok ⟨[d]⟩ :=
    line_of_isLine (by decide +kernel)
  have hts : ∀ t ∈ openImport, t.kind ≠ .punctuation .semicolon := by decide +kernel
  have hopens : ∀ u us, twoFunctions = u :: us →
      Parser.opensDeclaration u.kind ((us.head?.map Token.kind).getD .eof) = true := by
    intro u us h
    have : (twoFunctions.head?.map fun u =>
      Parser.opensDeclaration u.kind ((twoFunctions.tail.head?.map Token.kind).getD .eof)) = some true := by
      decide +kernel
    simpa [h] using this
  have hlength : (parsePartial (resumption twoFunctions) {}).1.declarations.length = 1 := by decide +kernel
  obtain ⟨u, us, hus⟩ := List.exists_cons_of_ne_nil (show twoFunctions ≠ [] by decide +kernel)
  refine ⟨d, hline, hd, u, us, hus, hus ▸ hlength, ?_⟩
  exact parsePartial_missingSemicolon rfl hline rfl hts hd (hopens u us hus)

/-- The keyword that the failure stopped at is skipped, so that the function is lost which it opens. -/
theorem missingSemicolon_swallows :
    (∃ d, d.isLine = true ∧ parseTokens (openImport ++ [importEnd]) {} = .ok ⟨[d]⟩) ∧
      (∃ p, parseTokens (lex "fn f() {}").tokens {} = .ok p ∧ p.declarations.length = 1) ∧
        (parsePartial (openImport ++ (lex "fn f() {}").tokens) {}).1.declarations = [] := by
  refine ⟨line_of_isLine (by decide +kernel), ?_, List.eq_nil_of_length_eq_zero (by decide +kernel)⟩
  have hlength : (parseTokens (lex "fn f() {}").tokens {}).toOption.map (fun p => p.declarations.length) = some 1 := by
    decide +kernel
  cases hp : parseTokens (lex "fn f() {}").tokens {} with
  | error errors => simp [hp, Except.toOption] at hlength
  | ok p => exact ⟨p, rfl, by simpa [hp, Except.toOption] using hlength⟩

end ElleFrontEnd
