import ElleFrontEnd.Proofs.Fresh
import ElleFrontEnd.Proofs.Ready

/-!
# More tokens behind a program

A run does not change when more tokens stand behind those it reads, as long as a token that may end an item is still
to come: up to there nothing is looked at that stands further behind (`Tie.appended`).  A declaration ends with such
a token, so that it is read in the same way whatever stands behind it (`Finishes`).

So a program is read declaration by declaration: where tokens that make a program are followed by more tokens, the
declarations of the first come before what is read from the second (`parsePartial_append`).
-/

namespace ElleFrontEnd

open ElleFrontEnd.Parser (Round)

namespace ParseState

/-- The state, with `us` behind the tokens to read. -/
def append (s : ParseState) (us : List Token) : ParseState := { s with rest := s.rest ++ us }

/-- A token that may end an item is still to come. -/
def HasEnd (s : ParseState) : Prop := ∃ t ∈ s.rest, t.kind.endsItem = true

variable {s s' : ParseState} {us : List Token}

theorem advance_append (h : s.rest ≠ []) : (s.append us).advance = s.advance.append us := by
  obtain ⟨t, ts, hr⟩ := List.exists_cons_of_ne_nil h
  unfold advance append
  rw [hr]
  dsimp only [List.cons_append]
  split
  · rw [hr]
    rfl
  · rfl

theorem HasEnd.rest_ne (h : s.HasEnd) : s.rest ≠ [] := by
  obtain ⟨t, ht, -⟩ := h
  exact List.ne_nil_of_mem ht

theorem HasEnd.of_advances (h : Advances s s') (h' : s'.HasEnd) : s.HasEnd := by
  obtain ⟨⟨used, hu⟩, -⟩ := h
  obtain ⟨t, ht, hk⟩ := h'
  exact ⟨t, by rw [hu.rest]; exact List.mem_append_right _ ht, hk⟩

/-- A token that may end an item comes next. -/
theorem HasEnd.of_peek (h : s.peek.kind.endsItem = true) : s.HasEnd := by
  obtain ⟨ts, hr⟩ := rest_of_peek (s := s) (by rintro hk; simp [hk, TokenKind.endsItem] at h)
  exact ⟨_, by rw [hr]; exact List.mem_cons_self, h⟩

theorem HasEnd.advance (h : s.HasEnd) (hk : s.peek.kind.endsItem = false) : s.advance.HasEnd := by
  obtain ⟨t, ts, hr⟩ := List.exists_cons_of_ne_nil h.rest_ne
  obtain ⟨u, hu, hend⟩ := h
  rw [peek_cons hr] at hk
  rw [hr, List.mem_cons] at hu
  rcases hu with rfl | hu
  · simp [hk] at hend
  unfold ParseState.advance
  rw [hr]
  dsimp only
  split
  · exact ⟨u, by rw [hr]; exact List.mem_cons_of_mem _ hu, hend⟩
  · exact ⟨u, hu, hend⟩

theorem peek_append (h : s.rest ≠ []) : (s.append us).peek = s.peek := by
  obtain ⟨t, ts, hr⟩ := List.exists_cons_of_ne_nil h
  have hr' : (s.append us).rest = t :: (ts ++ us) := by simp [append, hr]
  rw [peek_cons hr, peek_cons hr']

end ParseState

theorem upToEnd_append {ts : List Token} (h : ∃ t ∈ ts, t.kind.endsItem = true) (us : List Token) :
    upToEnd (ts ++ us) = upToEnd ts := by
  induction ts with
  | nil => simp at h
  | cons t ts ih =>
    rw [List.cons_append]
    unfold upToEnd
    by_cases hk : t.kind.endsItem = true
    · rw [if_pos hk, if_pos hk]
    · rw [if_neg hk, if_neg hk, ih]
      obtain ⟨u, hu, hend⟩ := h
      rcases List.mem_cons.1 hu with rfl | hu
      · exact absurd hend hk
      · exact ⟨u, hu, hend⟩

namespace Parser

/-- A statement that failed is skipped in the same way, unless all tokens are. -/
theorem skipStatement_append (us : List Token) (depth : Nat) (last : Option Token) (ts : List Token) :
    (skipStatement depth last ts).2 = [] ∨
      skipStatement depth last (ts ++ us) = ((skipStatement depth last ts).1,
        (skipStatement depth last ts).2 ++ us) := by
  induction ts generalizing depth last with
  | nil => exact .inl rfl
  | cons t ts ih =>
    rw [List.cons_append]
    unfold skipStatement
    split
    · exact .inr rfl
    · split
      · exact .inr rfl
      · exact ih _ _
    · exact ih _ _
    · exact ih _ _
    · exact ih _ _
    · exact ih _ _
    · exact ih _ _
    · split
      · exact .inr rfl
      · exact ih _ _
    · exact ih _ _

end Parser

/-- A state and the same one with `us` behind the tokens to read, as long as a token that may end an item is still to
come. -/
def Tie.appended (us : List Token) : Tie where
  rel s t := s.HasEnd ∧ t = s.append us
  gone s := ¬ s.HasEnd
  near := by
    rintro s _ ⟨hs, rfl⟩
    unfold ParseState.near ParseState.append
    rw [upToEnd_append hs]
  gap := by
    rintro s _ s' _ ⟨-, rfl⟩ ⟨-, rfl⟩
    simp only [ParseState.append, List.length_append]
    omega
  within := by
    rintro s _ ⟨hs, rfl⟩ hk
    exact ⟨hs.advance hk, ParseState.advance_append hs.rest_ne⟩
  advance := by
    rintro s _ ⟨hs, rfl⟩
    by_cases hend : s.advance.HasEnd
    · exact .inl ⟨hend, ParseState.advance_append hs.rest_ne⟩
    · exact .inr hend
  rewind := by
    rintro s _ s' _ ⟨hs, rfl⟩ ⟨-, rfl⟩
    exact ⟨hs, rfl⟩
  record := by
    rintro s _ e ⟨hs, rfl⟩
    exact ⟨hs, rfl⟩
  next := by
    rintro s _ ⟨hs, rfl⟩
    by_cases hend : (Parser.toNextStatement s).HasEnd
    · left
      refine ⟨hend, ?_⟩
      rcases Parser.skipStatement_append us 0 s.last s.rest with hnil | hskip
      · exact absurd hnil hend.rest_ne
      · simp [Parser.toNextStatement, ParseState.append, hskip]
    · exact .inr hend
  gone_of_advances := fun hs hadv h => hs (.of_advances hadv h)

theorem Tie.owing_appended (us : List Token) : (Tie.appended us).Owing := by
  rintro s _ n ⟨hs, rfl⟩
  exact ⟨hs, rfl⟩

namespace Parser

variable {α β : Type} {s s' : ParseState} {us : List Token}

/-- A run up to a place that is followed by a token that may end an item. -/
theorem run_append {p : Parser α} (hp : (Tie.appended us).Ties p p) {r : Except Diagnostic α}
    (h : p.run s = (r, s')) (hs' : s'.HasEnd) : s.HasEnd ∧ p.run (s.append us) = (r, s'.append us) := by
  have hs : s.HasEnd := .of_advances (advances_run hp.advances h) hs'
  refine ⟨hs, ?_⟩
  have := hp.ends s (s.append us) ⟨hs, rfl⟩ trivial
  change (Tie.appended us).Ends True (p.run s) (p.run (s.append us)) at this
  rw [h] at this
  generalize p.run (s.append us) = y at this ⊢
  cases this with
  | same h => rw [h.2]
  | gone _ h => exact absurd hs' h

/-- A parser that succeeds only behind a token that may end an item, and in the same way whatever follows. -/
def Finishes (us : List Token) (p : Parser α) : Prop := ∀ s a s', p.run s = (.ok a, s') →
  s.HasEnd ∧ s'.last.isSome = true ∧ p.run (s.append us) = (.ok a, s'.append us)

/-- A parser that does the same behind the end of an item, whatever follows. -/
def Closes (us : List Token) (p : Parser α) : Prop := ∀ s a s', s.last.isSome = true → p.run s = (.ok a, s') →
  s'.last.isSome = true ∧ p.run (s.append us) = (.ok a, s'.append us)

namespace Closes

variable {p q : Parser α}

theorem pure (a : α) : Closes us (Pure.pure a : Parser α) := by
  intro s b s' hs h
  obtain ⟨rfl, rfl⟩ := pure_ok.1 h
  exact ⟨hs, rfl⟩

theorem fail (e : Diagnostic) : Closes us (Parser.fail e : Parser α) := fun _ _ _ _ h => absurd (fail_ok.1 h) id

theorem ite {c : Prop} [Decidable c] (hp : Closes us p) (hq : Closes us q) : Closes us (if c then p else q) := by
  split
  · exact hp
  · exact hq

/-- A result that is built with the stretch it was read from. -/
theorem spanFrom (start : Nat) (build : Span → α) : Closes us (do Pure.pure (build (← Parser.spanFrom start))) := by
  intro s a s' hs h
  have hspan : (s.append us).spanFrom start = s.spanFrom start := by
    obtain ⟨t, ht⟩ := Option.isSome_iff_exists.1 hs
    simp [ParseState.spanFrom, ParseState.readStop, ParseState.append, ht]
  unfold Parser.spanFrom at h ⊢
  rw [look_bind] at h ⊢
  obtain ⟨rfl, rfl⟩ := pure_ok.1 h
  exact ⟨hs, by rw [hspan]; rfl⟩

/-- A mark that may follow, but does not open what follows. -/
theorem accept {kind : TokenKind} (hus : (us.head?.map Token.kind) ≠ some kind) (hk : kind ≠ .eof) (a : α) :
    Closes us (do let _ ← Parser.accept kind; Pure.pure a) := by
  intro s b s' hs h
  rw [accept_bind] at h ⊢
  by_cases hr : s.rest = []
  · have hpeek : s.peek.kind ≠ kind := by
      have : s.peek = s.eof := by simp [ParseState.peek, hr]
      rw [this]
      exact Ne.symm hk
    have hpeek' : (s.append us).peek.kind ≠ kind := by
      cases us with
      | nil => simpa [ParseState.append] using hpeek
      | cons u us =>
        have hu : (s.append (u :: us)).rest = u :: us := by simp [ParseState.append, hr]
        rw [ParseState.peek_cons hu]
        simpa using hus
    rw [if_neg hpeek] at h
    rw [if_neg hpeek']
    obtain ⟨rfl, rfl⟩ := pure_ok.1 h
    exact ⟨hs, rfl⟩
  · rw [ParseState.peek_append hr, ParseState.advance_append hr]
    split at h
    · rename_i hpeek
      rw [if_pos hpeek]
      obtain ⟨rfl, rfl⟩ := pure_ok.1 h
      obtain ⟨ts, hrest⟩ := ParseState.rest_of_peek (hpeek ▸ hk)
      exact ⟨by rw [ParseState.advance_cons hrest (hpeek ▸ hk)]; rfl, rfl⟩
    · rename_i hpeek
      rw [if_neg hpeek]
      obtain ⟨rfl, rfl⟩ := pure_ok.1 h
      exact ⟨hs, rfl⟩

end Closes

namespace Finishes

variable {p q : Parser α} {f : α → Parser β}

theorem after (hp : (Tie.appended us).Ties p p) (hf : ∀ a, Finishes us (f a)) : Finishes us (p >>= f) := by
  intro s b s' h
  obtain ⟨a, s₁, ha, h⟩ := bind_ok.1 h
  obtain ⟨hs₁, hlast, happ⟩ := hf a s₁ b s' h
  obtain ⟨hs, hpapp⟩ := run_append hp ha hs₁
  exact ⟨hs, hlast, (run_bind_of_ok hpapp).trans happ⟩

theorem before (hp : Finishes us p) (hf : ∀ a, Closes us (f a)) : Finishes us (p >>= f) := by
  intro s b s' h
  obtain ⟨a, s₁, ha, h⟩ := bind_ok.1 h
  obtain ⟨hs, hlast, hpapp⟩ := hp s a s₁ ha
  obtain ⟨hlast', happ⟩ := hf a s₁ b s' hlast h
  exact ⟨hs, hlast', (run_bind_of_ok hpapp).trans happ⟩

theorem fails (h : ∀ s a s', p.run s ≠ (.ok a, s')) : Finishes us p := fun s a s' hs => absurd hs (h s a s')

theorem ite {c : Prop} [Decidable c] (hp : Finishes us p) (hq : Finishes us q) :
    Finishes us (if c then p else q) := by
  split
  · exact hp
  · exact hq

theorem semicolon : Finishes us Parser.semicolon := by
  intro s u s' h
  obtain ⟨hk, rfl⟩ := semicolon_ok.1 h
  have hs : s.HasEnd := .of_peek (by rw [hk]; rfl)
  obtain ⟨ts, hr⟩ := ParseState.rest_of_peek (s := s) (by simp [hk])
  refine ⟨hs, ?_, semicolon_ok.2 ⟨by rw [ParseState.peek_append hs.rest_ne]; exact hk, ?_⟩⟩
  · rw [ParseState.advance_cons hr (by simp [hk])]
    rfl
  · exact ParseState.advance_append hs.rest_ne

/-- Rounds up to a closing brace. -/
theorem collect {round : Parser (Round α)} (hr : (Tie.appended us).Ties round round) (hshrinks : RoundShrinks round)
    (hstop : ∀ s s', round.run s = (.ok .stop, s') ↔ s.peek.kind = .punctuation .rBrace ∧ s' = s.advance)
    (hlast : ∀ s a s', ¬ round.run s = (.ok (.last a), s')) : Finishes us (Parser.collect round) := by
  intro s as s' h
  rw [collect_ok hshrinks] at h ⊢
  induction h with
  | @stop s s' h =>
    obtain ⟨hk, rfl⟩ := (hstop _ _).1 h
    have hs : s.HasEnd := .of_peek (by rw [hk]; rfl)
    obtain ⟨ts, hr⟩ := ParseState.rest_of_peek (s := s) (by simp [hk])
    refine ⟨hs, ?_, .stop ((hstop _ _).2 ⟨by rw [ParseState.peek_append hs.rest_ne]; exact hk, ?_⟩)⟩
    · rw [ParseState.advance_cons hr (by simp [hk])]
      rfl
    · exact (ParseState.advance_append hs.rest_ne).symm
  | last h => exact absurd h (hlast _ _ _)
  | more h _ ih =>
    obtain ⟨hs₁, hsome, hrest⟩ := ih
    obtain ⟨hs, happ⟩ := run_append hr h hs₁
    exact ⟨hs, hsome, .more happ hrest⟩
  | none h _ ih =>
    obtain ⟨hs₁, hsome, hrest⟩ := ih
    obtain ⟨hs, happ⟩ := run_append hr h hs₁
    exact ⟨hs, hsome, .none happ hrest⟩

end Finishes

/-! ### Blocks and declarations -/

theorem Finishes.blockBody (o : ParseOptions) (room : Nat) :
    Finishes us (Parser.blockBody o (Inner.ofRoom o room)) := by
  have hs := settled_ofRoom o room
  have hg := Tie.tied_ofRoom (Tie.owing_appended us) o room
  refine .after (Tie.Runs.expect _ _) fun opened => .before ?_ fun _ => .spanFrom _ _
  exact .collect (Tie.Runs.blockRound hg o opened) (blockRound_shrinks hs o opened) (fun _ _ => blockRound_stop)
    fun _ _ _ => blockRound_last

theorem Finishes.block (o : ParseOptions) (room : Nat) : Finishes us (Inner.ofRoom o room).block := by
  cases room with
  | zero => exact .fails fun s a s' h => tooDeep_ok.1 h
  | succ room => exact .blockBody o room

namespace Finishes

theorem importPath : Finishes us Parser.importPath := by
  refine .after (Tie.Runs.expect _ _) fun _ => .after ?_ fun _ => .before .semicolon fun _ => .pure _
  exact .separatedBy (by simp) (.inl trivial) .pathSegment

theorem globalLine : Finishes us Parser.globalLine := by
  refine .after (Tie.Runs.expect _ _) fun _ => .after ?_ fun _ => .before .semicolon fun _ => .pure _
  exact .separatedBy (by simp) (.inl trivial) .globalOption

theorem moduleLine : Finishes us Parser.moduleLine :=
  .after .skip fun _ => .after .identifier fun _ => .before .semicolon fun _ => .pure _

variable (o : ParseOptions) (room : Nat)

theorem functionBody (modifiers : List Modifier) (name : DeclName) :
    Finishes us (Parser.functionBody (Inner.ofRoom o room) modifiers name) := by
  refine .after (Tie.Runs.isAt _) fun _ => .ite ?_ ?_
  · exact .before (.block o room) fun _ => .ite (.fail _) (.pure _)
  · refine .before (fun s u s' h => ?_) fun _ => .pure _
    obtain ⟨hs, hlast, happ⟩ := Finishes.semicolon s u s' (onError_ok.1 h)
    exact ⟨hs, hlast, onError_ok.2 happ⟩

theorem functionDecl (modifiers : List Modifier) :
    Finishes us (Parser.functionDecl (Inner.ofRoom o room) modifiers) := by
  have hs := settled_ofRoom o room
  have hg := Tie.tied_ofRoom (Tie.owing_appended us) o room
  refine .after (Tie.Runs.expect _ _) fun _ => .after Tie.Runs.declName fun name => ?_
  refine .after Tie.Runs.typeParams.ties fun _ => .after (Tie.Runs.paramList hg) fun _ => ?_
  refine .after (Tie.Runs.attributeList hg hs) fun _ => .after (Tie.Runs.returnType hg) fun _ => ?_
  exact .before (.functionBody o room modifiers name) fun _ => .pure _

theorem constDecl (modifiers : List Modifier) : Finishes us (Parser.constDecl (Inner.ofRoom o room) modifiers) := by
  have hg := Tie.tied_ofRoom (Tie.owing_appended us) o room
  refine .after (Tie.Runs.expect _ _) fun _ => .after (Tie.Runs.constType hg) fun _ => ?_
  refine .after Tie.Runs.identifier fun _ => .after (Tie.Runs.expect _ _) fun _ => ?_
  exact .after (hg.expression false) fun _ => .before .semicolon fun _ => .pure _

variable (hus : (us.head?.map Token.kind) ≠ some (.punctuation .semicolon))
include hus

theorem structDecl (modifiers : List Modifier) :
    Finishes us (Parser.structDecl (Inner.ofRoom o room) modifiers) := by
  have hs := settled_ofRoom o room
  have hg := Tie.tied_ofRoom (Tie.owing_appended us) o room
  refine .after (Tie.Runs.expect _ _) fun _ => .after Tie.Runs.identifier fun _ => ?_
  refine .after Tie.Runs.typeParams.ties fun _ => .after (Tie.Runs.attributeList hg hs) fun _ => ?_
  refine .after (Tie.Runs.expect _ _) fun opened => .before ?_ fun _ => .accept hus (by simp) _
  exact .collect (Tie.Runs.fieldRound hg opened) (fieldRound_shrinks hs opened) (fun _ _ => fieldRound_stop)
    fun _ _ _ => fieldRound_last

theorem declaration : Finishes us (Parser.declaration (Inner.ofRoom o room)) := by
  refine .after Tie.Runs.nextStart fun _ => .before ?_ fun _ => .spanFrom _ _
  refine .after Tie.Runs.nextKind fun kind => ?_
  split
  · exact .before .importPath fun _ => .pure _
  · exact .before .globalLine fun _ => .pure _
  · exact .before .moduleLine fun _ => .pure _
  refine .after Tie.Runs.modifierList fun modifiers => .after Tie.Runs.nextKind fun kind => ?_
  split
  · exact .before (.functionDecl o room modifiers) fun _ => .ite (.pure _) (.pure _)
  · exact .before (.constDecl o room modifiers) fun _ => .pure _
  · exact .before (.structDecl o room hus modifiers) fun _ => .pure _
  · exact .fails fun _ _ _ h => noDeclaration_ok.1 h

end Finishes

/-! ### Programs -/

/-- Where tokens make a program, what follows them is read behind their declarations. -/
theorem program_append {o : ParseOptions} {ds : List Declaration} {us : List Token}
    (hus : (us.head?.map Token.kind) ≠ some (.punctuation .semicolon))
    (h : Declared (Inner.ofRoom o o.maxDepth) s ds s') :
    (program o).run (s.append us) = (do let es ← program o; pure (ds ++ es) : Parser (List Declaration)).run
      (s'.append us) := by
  induction h with
  | @nil s _ =>
    change program o (s.append us) = andThen (program o) _ (s.append us)
    unfold andThen
    rcases program o (s.append us) with ⟨e | ds, s'⟩ <;> rfl
  | @stray s s' ds hk _ ih =>
    have hr : s.rest ≠ [] := (ParseState.HasEnd.of_peek (by rw [hk]; rfl)).rest_ne
    have hround := programRound_stray (o := o) (s := s.append us) (by rw [ParseState.peek_append hr]; exact hk)
    rw [ParseState.advance_append hr] at hround
    exact (collect_none (programRound_shrinks o) hround).trans ih
  | @cons s s₁ s' d ds he hk hd _ ih =>
    obtain ⟨hs, -, happ⟩ := Finishes.declaration o o.maxDepth hus s d s₁ hd
    have hround : (programRound o).run (s.append us) = (.ok (.more d), s₁.append us) := by
      refine programRound_more.2 ⟨?_, ?_, happ⟩
      · unfold ParseState.atEnd
        rw [ParseState.peek_append hs.rest_ne]
        exact he
      · rwa [ParseState.peek_append hs.rest_ne]
    refine (collect_more (programRound_shrinks o) hround).trans ?_
    change andThen (program o) _ (s₁.append us) = andThen (program o) _ (s'.append us)
    change program o (s₁.append us) = andThen (program o) _ (s'.append us) at ih
    unfold andThen at ih ⊢
    rw [ih]
    rcases program o (s'.append us) with ⟨e | es, s''⟩ <;> rfl

end Parser

/-- Top-level parsing is compositional: where tokens make a program by themselves, and what follows them does not open
with a semicolon, the declarations of the whole are those of the first tokens, and behind them those of the others;
and the diagnostics are those of the others. -/
theorem parsePartial_append {ts us : List Token} {o : ParseOptions} {p : Program} (hts : ∀ t ∈ ts, t.kind ≠ .eof)
    (hp : parseTokens ts o = .ok p) (hus : (us.head?.map Token.kind) ≠ some (.punctuation .semicolon)) :
    parsePartial (ts ++ us) o =
      (⟨p.declarations ++ (parsePartial us o).1.declarations⟩, (parsePartial us o).2) := by
  obtain ⟨s', hclean, hdecls⟩ := parseTokens_ok.1 hp
  have hready : Ready s' := Parser.ready_of_declared ⟨rfl, rfl⟩ hdecls hclean
  have hrest : s'.rest = [] := by
    obtain ⟨⟨used, hu⟩, -⟩ := Parser.advances_of_declared (settled_ofRoom o o.maxDepth) hdecls
    have hend := TokenKind.isEof_iff.1 (Parser.atEnd_of_declared hdecls)
    cases hr : s'.rest with
    | nil => rfl
    | cons t rest =>
      rw [ParseState.peek_cons hr] at hend
      exact absurd hend (hts t (by rw [show ts = used ++ s'.rest from hu.rest, hr]; simp))
  have hus' : (s'.append us).rest = us := by simp [ParseState.append, hrest]
  have howed : (s'.append us).owed = 0 := hready.owed
  have hclean' : (s'.append us).errors = [] := hclean
  have hwhole : parsePartial (ts ++ us) o = _ := parsePartial_of_run howed (Parser.program_append hus hdecls)
  rw [hwhole, hus', hclean', List.nil_append]

/-- An import and a struct, of which the struct is ended by its brace alone. -/
def importAndStruct : List Token := (lex "use a; struct S { i32 x }").tokens.dropLast

/-- A function, and one that is never ended. -/
def functionAndRest : List Token := (lex "fn f() {} fn g(").tokens

/-- The import and the struct are read first, and only the rest behind them is reported. -/
theorem parsePartial_append_importAndStruct :
    (∀ t ∈ importAndStruct, t.kind ≠ .eof) ∧
    (functionAndRest.head?.map Token.kind) ≠ some (.punctuation .semicolon) ∧
    ∃ p, parseTokens importAndStruct {} = .ok p ∧
      parsePartial (importAndStruct ++ functionAndRest) {} =
        (⟨p.declarations ++ (parsePartial functionAndRest {}).1.declarations⟩,
          (parsePartial functionAndRest {}).2) := by
  have heof : ∀ t ∈ importAndStruct, t.kind ≠ .eof := by decide +kernel
  have hhead : (functionAndRest.head?.map Token.kind) ≠ some (.punctuation .semicolon) := by decide +kernel
  have haccepted : (parseTokens importAndStruct {}).toOption.isSome = true := by decide +kernel
  refine ⟨heof, hhead, ?_⟩
  cases hp : parseTokens importAndStruct {} with
  | ok p => exact ⟨p, rfl, parsePartial_append heof hp hhead⟩
  | error errors => simp [hp, Except.toOption] at haccepted

end ElleFrontEnd
