import ElleFrontEnd.Proofs.TieProgram
import ElleFrontEnd.Proofs.TrialProgram

/-!
# Programs at a wider limit

Types are all that is ever read on trial, so they are all for which running out of levels may go unnoticed.  Where only
types may nest as deep as a wider limit allows (`Inner.typesWithin`), a program that is read is read at the wider limit
as well, and it is the same one.  So a wider limit changes nothing about a program unless it changes what its types are
read as (`TypesFit`).
-/

namespace ElleFrontEnd

open ElleFrontEnd.Parser (Round)

variable {α : Type} {limit limit' : Nat} {tokens : List Token} {s s' : ParseState}

/-! ### Types of their own limit -/

/-- The parsers of nested constructs, where types may nest as deep as `limit'` allows, and all else as `limit` does. -/
def Inner.typesWithin (limit limit' : Nat) : (room : Nat) → Inner
  | 0 => { Inner.ofRoom ⟨limit, false⟩ 0 with type := Parser.typeExpr limit' (limit' - limit) }
  | room + 1 =>
    (Inner.typesWithin limit limit' room).around (Parser.typeExpr limit' (limit' - limit + (room + 1)))
      (Parser.blockBody ⟨limit, false⟩ (Inner.typesWithin limit limit' room))

/-- The declarations of a program, where types may nest as deep as `limit'` allows, and all else as `limit` does. -/
def Parser.programWithin (limit limit' : Nat) : Parser (List Declaration) :=
  Parser.collect (Parser.roundOf ⟨limit, false⟩ (Parser.declaration (Inner.typesWithin limit limit' limit)))

/-- The program of a token stream, or all diagnostics, where types may nest as deep as `limit'` allows, and all else as
`limit` does. -/
def parseTokensWithin (limit limit' : Nat) (tokens : List Token) : Except (List Diagnostic) Program :=
  match (Parser.programWithin limit limit').run { rest := tokens } with
  | (.ok declarations, s) => if s.errors = [] then .ok ⟨declarations⟩ else .error s.errors
  | (.error e, s) => .error (s.errors ++ [e])

/-- The types of a token stream fit the limit as well as the wider one: what is read stays the same where types may nest
as deep as that one allows. -/
def TypesFit (limit limit' : Nat) (tokens : List Token) : Prop :=
  parseTokensWithin limit limit' tokens = parseTokens tokens ⟨limit, false⟩

theorem settled_typesWithin (limit limit' room : Nat) : (Inner.typesWithin limit limit' room).Settled := by
  induction room with
  | zero =>
    have hg := settled_ofRoom ⟨limit, false⟩ 0
    exact
      { steady := fun ts => { hg.steady ts with type := Alike.typeExpr (.refl ts) _ _ }
        silent := Parser.Silent.typeExpr _ _
        shrinks := hg.shrinks }
  | succ room ih => exact ih.around _ _ _

/-! ### Following at every limit -/

/-- What follows another parser whatever limit is named does not run out of levels. -/
theorem Follows.exact {P : α → Prop} {p p' : Parser α} (h : ∀ limit, Follows limit P p p') {a : α}
    (hp : p'.run s = (.ok a, s')) (ha : P a) : p.run s = (.ok a, s') := by
  have h₀ := h 0 s a s' hp ha
  have h₁ := h 1 s a s' hp ha
  generalize p.run s = x at h₀ h₁
  cases h₀ with
  | ok => rfl
  | tooDeep cause =>
    cases h₁ with
    | tooDeep cause' => simp [cause] at cause'

/-- With types that are read alike on both sides, the trials of a result need not be counted. -/
theorem narrows_typesWithin (limit limit' named depth room : Nat) :
    Inner.Narrows named depth (Inner.ofRoom ⟨limit', false⟩ (limit' - limit + room))
      (Inner.typesWithin limit limit' room) := by
  induction room with
  | zero =>
    have htype : (Inner.ofRoom ⟨limit', false⟩ (limit' - limit)).type = Parser.typeExpr limit' (limit' - limit) :=
      Inner.ofRoom_type ..
    have hfails {α : Type} {P : α → Prop} {p : Parser α} : Follows named P p (Parser.tooDeep limit) :=
      fun _ _ _ h _ => absurd (Parser.tooDeep_ok.1 h) id
    exact
      { settled := settled_ofRoom _ _
        settled' := settled_typesWithin _ _ _
        type := fun angles => by
          change Curtails named ((Inner.ofRoom ⟨limit', false⟩ (limit' - limit)).type angles) _
          rw [htype]
          exact .refl _
        fit := fun angles s t s' h _ => by
          change ((Inner.ofRoom ⟨limit', false⟩ (limit' - limit)).type angles).run s = _
          rw [htype]
          exact h
        expression := fun _ => hfails
        chain := fun _ _ => hfails
        unary := fun _ => hfails
        block := hfails
        elseIf := hfails }
  | succ room ih =>
    have hdeep {n : Nat} (h : n ≤ depth) : n ≤ depth + 1 := Nat.le_succ_of_le h
    exact
      { settled := settled_ofRoom _ _
        settled' := settled_typesWithin _ _ _
        type := fun _ => .refl _
        fit := fun _ _ _ _ h _ => h
        expression := fun _ => (Follows.expressionBody ih).mono fun _ => hdeep
        chain := fun _ level => (Follows.chainBody ih level).mono fun _ => hdeep
        unary := fun _ => (Follows.unaryBody ih).mono fun _ => hdeep
        block := (Follows.blockBody ih).mono fun _ => hdeep
        elseIf := (Follows.ifBody ih).mono fun _ h => Nat.le_trans (le_deeper _) h }

/-! ### Programs -/

namespace Parser

/-- Where nothing fails, a round is the same for each parser of declarations that reads the same ones. -/
theorem roundOf_clean {o o' : ParseOptions} {p q : Parser Declaration} {r : Round Declaration}
    (hpq : ∀ s d s', p.run s = (.ok d, s') → q.run s = (.ok d, s')) (hs : s'.errors = [])
    (h : (roundOf o p).run s = (.ok r, s')) : (roundOf o' q).run s = (.ok r, s') := by
  have hfail {e : Diagnostic} {s₁ : ParseState} : { s₁ with errors := s₁.errors ++ [e] } ≠ s' := by
    rintro rfl
    simp at hs
  have hskip {e : Diagnostic} {s₁ : ParseState} :
      toNextDeclaration { s₁ with errors := s₁.errors ++ [e] } ≠ s' := by
    rintro rfl
    simp [toNextDeclaration] at hs
  unfold roundOf record at h ⊢
  simp [atEnd, acceptMark, ite_eq_iff, hfail, hskip] at h ⊢
  rcases h with hstop | ⟨he, hstray | ⟨hk, d, hd, hr⟩⟩
  · exact .inl hstop
  · exact .inr ⟨he, .inl hstray⟩
  · exact .inr ⟨he, .inr ⟨hk, d, hpq _ _ _ hd, hr⟩⟩

/-- Where nothing fails, the items are the same for each round that yields the same ones. -/
theorem collectFor_clean_congr {round round' : Parser (Round α)} (hadv : ∀ s, Advances s (round s).2)
    (hround : ∀ s r s', s'.errors = [] → round.run s = (.ok r, s') → round'.run s = (.ok r, s'))
    (budget : List Token) {as : List α} (hs : s'.errors = [])
    (h : (collectFor round budget).run s = (.ok as, s')) : (collectFor round' budget).run s = (.ok as, s') := by
  induction budget generalizing s as with
  | nil => exact h
  | cons t budget ih =>
    obtain ⟨r, s₁, hr, h⟩ := bind_ok.1 h
    cases r with
    | stop | last a =>
      obtain ⟨rfl, rfl⟩ := pure_ok.1 h
      exact bind_ok.2 ⟨_, _, hround _ _ _ hs hr, rfl⟩
    | more a =>
      obtain ⟨as', s₂, hrest, h⟩ := bind_ok.1 h
      obtain ⟨rfl, rfl⟩ := pure_ok.1 h
      have hs₁ := (advances_collectFor hadv hrest).errors_nil hs
      exact bind_ok.2 ⟨_, _, hround _ _ _ hs₁ hr, bind_ok.2 ⟨_, _, ih hrest, rfl⟩⟩
    | none =>
      have hs₁ := (advances_collectFor hadv h).errors_nil hs
      exact bind_ok.2 ⟨_, _, hround _ _ _ hs₁ hr, ih h⟩

theorem advances_roundOf {o : ParseOptions} {p : Parser Declaration} (hp : ∀ s, Advances s (p s).2) (s : ParseState) :
    Advances s (roundOf o p s).2 := by
  have hseq := sequential_advances
  refine hseq.bind (fun s => .refl s) (fun ended => ?_) s
  split
  · exact hseq.pure _
  refine hseq.bind (Alike.advances fun ts => Alike.accept (.refl ts) _) fun stray => ?_
  split
  · exact hseq.pure _
  have houtcome (s : ParseState) : Advances s (outcome p s).2 := by
    have h := hp s
    unfold outcome
    rcases hr : p s with ⟨e | d, s'⟩ <;> rw [hr] at h <;> exact h
  refine hseq.bind houtcome fun result => ?_
  cases result with
  | ok d => exact hseq.pure _
  | error e =>
    refine hseq.bind (fun s => .record s e) fun _ => ?_
    split
    · exact hseq.bind (Alike.advances fun ts => Alike.toNextDeclaration (.refl ts)) fun _ => hseq.pure _
    · exact hseq.pure _

theorem declaration_typesWithin (hlimit : limit ≤ limit') {d : Declaration}
    (h : (declaration (Inner.typesWithin limit limit' limit)).run s = (.ok d, s')) :
    (declaration (Inner.ofRoom ⟨limit', false⟩ limit')).run s = (.ok d, s') := by
  refine Follows.exact (P := (·.trialDepth ≤ d.trialDepth)) (fun named => ?_) h (Nat.le_refl _)
  have hg := narrows_typesWithin limit limit' named d.trialDepth limit
  rw [Nat.sub_add_cancel hlimit] at hg
  exact Follows.declaration hg

/-- A program that is read with types of their own limit is read at that limit. -/
theorem programWithin_clean (hlimit : limit ≤ limit') {ds : List Declaration} (hs : s'.errors = [])
    (h : (programWithin limit limit').run s = (.ok ds, s')) :
    (program ⟨limit', false⟩).run s = (.ok ds, s') := by
  have hdecl (s : ParseState) : Advances s (declaration (Inner.typesWithin limit limit' limit) s).2 :=
    Alike.advances (fun ts => Alike.declaration (.refl ts) ((settled_typesWithin limit limit' limit).steady ts)) s
  refine collectFor_clean_congr (advances_roundOf hdecl) (fun s r s' hs hr => ?_) (s.peek :: s.rest) hs h
  exact roundOf_clean (fun _ _ _ => declaration_typesWithin hlimit) hs hr

end Parser

/-- A program that is read with types of their own limit is read at that limit, whether or not reading would go on
behind a failure. -/
theorem parseTokens_of_within (hlimit : limit ≤ limit') (goesOn : Bool) {p : Program}
    (h : parseTokensWithin limit limit' tokens = .ok p) : parseTokens tokens ⟨limit', goesOn⟩ = .ok p := by
  unfold parseTokensWithin at h
  rcases hrun : (Parser.programWithin limit limit').run { rest := tokens } with ⟨e | ds, s'⟩ <;> rw [hrun] at h
  · cases h
  · by_cases hs : s'.errors = []
    · cases (if_pos hs).symm.trans h
      have hclean := Parser.programWithin_clean hlimit hs hrun
      exact parseTokens_ok_recover (parseTokens_ok.2 ⟨s', hs, (Parser.program_ok hs).1 hclean⟩) goesOn
    · cases (if_neg hs).symm.trans h

/-- Types fit where a program is read either way, and those on trial lie within the tighter limit. -/
theorem typesFit_of_trialDepth {goesOn : Bool} {p p' : Program} (hlimit : limit ≤ limit')
    (h : parseTokens tokens ⟨limit, goesOn⟩ = .ok p) (h' : parseTokensWithin limit limit' tokens = .ok p')
    (hp : p'.trialDepth ≤ limit) : TypesFit limit limit' tokens := by
  obtain rfl := parseTokens_limit_eq hlimit h (parseTokens_of_within hlimit goesOn h') hp
  exact h'.trans (parseTokens_ok_recover h false).symm

/-- A wider limit changes nothing about a program that is read, unless types are read in another way there. -/
theorem parseTokens_limit_mono {goesOn : Bool} {p : Program} (hlimit : limit ≤ limit')
    (hfit : TypesFit limit limit' tokens) (h : parseTokens tokens ⟨limit, goesOn⟩ = .ok p) :
    parseTokens tokens ⟨limit', goesOn⟩ = .ok p :=
  parseTokens_of_within hlimit goesOn (hfit.trans (parseTokens_ok_recover h false))

/-- A declaration in a block, whose type needs levels up to the fourth. -/
def nestedTypeTokens : List Token := (lex "fn f() { V<A<B>[]> x; }").tokens

/-- Where there are four levels, there might as well be more. -/
theorem parseTokens_limit_mono_nested : TypesFit 4 256 nestedTypeTokens ∧
    ∃ p, parseTokens nestedTypeTokens { maxDepth := 4 } = .ok p ∧ parseTokens nestedTypeTokens {} = .ok p := by
  have hnarrow : (parseTokens nestedTypeTokens { maxDepth := 4 }).toOption.map Program.trialDepth = some 4 := by
    decide +kernel
  have hwithin : (parseTokensWithin 4 256 nestedTypeTokens).toOption.map Program.trialDepth = some 4 := by
    decide +kernel
  obtain ⟨p, hp, -⟩ := ok_of_trialDepth hnarrow
  obtain ⟨p', hp', hdepth⟩ := ok_of_trialDepth hwithin
  have hfit := typesFit_of_trialDepth (by decide) hp hp' (Nat.le_of_eq hdepth)
  exact ⟨hfit, p, hp, parseTokens_limit_mono (by decide) hfit hp⟩

/-- Where there are three, the declaration is read as a chain of comparisons, and nothing is reported. -/
theorem parseTokens_limit_ne : ¬ ∀ (tokens : List Token) (limit limit' : Nat) (p : Program), limit ≤ limit' →
    parseTokens tokens { maxDepth := limit } = .ok p → parseTokens tokens { maxDepth := limit' } = .ok p := by
  intro h
  have hnarrow : (parseTokens nestedTypeTokens { maxDepth := 3 }).toOption.map Program.trialDepth = some 0 := by
    decide +kernel
  have hwide : (parseTokens nestedTypeTokens { maxDepth := 4 }).toOption.map Program.trialDepth = some 4 := by
    decide +kernel
  obtain ⟨p, hp, hdepth⟩ := ok_of_trialDepth hnarrow
  rw [h _ 3 4 p (by decide) hp] at hwide
  simp [Except.toOption, hdepth] at hwide

end ElleFrontEnd
