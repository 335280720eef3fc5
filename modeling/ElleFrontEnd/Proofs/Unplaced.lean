import ElleFrontEnd.Proofs.TraitGrammar

/-!
# Reading does not look at lines and columns

A token has its kind, its stretch, and the line and column that it begins at.  The last two are for messages alone:
what is read of a token stream, and where and why reading fails, depends on kinds and stretches
(`parsePartial_of_spans`).  This is a trait of the whole grammar; only the rounds of blocks and programs, which record
what failed and skip to where reading goes on, are walked apart.
-/

namespace ElleFrontEnd

variable {α β : Type}

@[simp] theorem Token.unplaced_kind (t : Token) : t.unplaced.kind = t.kind := rfl

@[simp] theorem ParseState.advance_unplaced (s : ParseState) : s.unplaced.advance = s.advance.unplaced := by
  rcases s with ⟨last, _ | ⟨t, ts⟩, owed, errors⟩
  · rfl
  · unfold ParseState.unplaced ParseState.advance
    simp only [List.map_cons, Token.unplaced_kind]
    split <;> rfl

namespace Parser

/-- The parser does the same without the lines and columns of tokens. -/
def Placeless (p : Parser α) : Prop := ∀ s, p s.unplaced = ((p s).1, (p s).2.unplaced)

namespace Placeless

variable {p : Parser α}

theorem bind {f : α → Parser β} (hp : Placeless p) (hf : ∀ a, Placeless (f a)) : Placeless (p >>= f) := by
  intro s
  change andThen p f s.unplaced = ((andThen p f s).1, (andThen p f s).2.unplaced)
  unfold andThen
  rw [hp s]
  rcases p s with ⟨e | a, s'⟩
  · rfl
  · exact hf a s'

theorem step {γ : Type} {l : ParseState → γ} {c : γ → Bool} {r : γ → Except Diagnostic α} (hl : Blind l)
    (hp : ∀ s, p s = (r (l s), if c (l s) then s.advance else s)) : Placeless p := by
  intro s
  rw [hp, hp, hl s]
  split
  · rw [ParseState.advance_unplaced]
  · rfl

theorem onError (f : Diagnostic → Diagnostic) (hp : Placeless p) : Placeless (Parser.onError f p) := by
  intro s
  unfold Parser.onError
  rw [hp s]
  rcases p s with ⟨e | a, s'⟩ <;> rfl

theorem attempt (hp : Placeless p) : Placeless (Parser.attempt p) := by
  intro s
  unfold Parser.attempt
  rw [hp s]
  rcases p s with ⟨e | a, s'⟩ <;> rfl

theorem outcome (hp : Placeless p) : Placeless (Parser.outcome p) := by
  intro s
  unfold Parser.outcome
  rw [hp s]
  rcases p s with ⟨e | a, s'⟩ <;> rfl

theorem record (e : Diagnostic) : Placeless (Parser.record e) := fun _ => rfl

theorem change {f : ParseState → ParseState} (hf : ∀ s, f s.unplaced = (f s).unplaced) : Placeless (Parser.change f) :=
  fun s => by rw [Parser.change, hf]; rfl

/-- A budget counts for its length alone. -/
theorem growFor {step : α → Parser (Option α)} (hs : ∀ a, Placeless (step a)) {budget budget' : List Token}
    (hb : budget'.length = budget.length) (a : α) (s : ParseState) : Parser.growFor step budget' a s.unplaced =
      ((Parser.growFor step budget a s).1, (Parser.growFor step budget a s).2.unplaced) := by
  induction budget generalizing budget' a s with
  | nil =>
    obtain rfl := List.length_eq_zero_iff.1 hb
    rfl
  | cons t budget ih =>
    obtain ⟨t', budget', rfl⟩ := List.exists_cons_of_length_eq_add_one hb
    change andThen (step a) _ s.unplaced = ((andThen (step a) _ s).1, (andThen (step a) _ s).2.unplaced)
    unfold andThen
    rw [hs a s]
    rcases step a s with ⟨e | o, s'⟩
    · rfl
    · cases o with
      | none => rfl
      | some a' => exact ih (Nat.succ.inj hb) a' s'

theorem collectFor {round : Parser (Round α)} (hr : Placeless round) {budget budget' : List Token}
    (hb : budget'.length = budget.length) (s : ParseState) : Parser.collectFor round budget' s.unplaced =
      ((Parser.collectFor round budget s).1, (Parser.collectFor round budget s).2.unplaced) := by
  induction budget generalizing budget' s with
  | nil =>
    obtain rfl := List.length_eq_zero_iff.1 hb
    rfl
  | cons t budget ih =>
    obtain ⟨t', budget', rfl⟩ := List.exists_cons_of_length_eq_add_one hb
    have hlater := ih (Nat.succ.inj hb)
    change andThen round _ s.unplaced = ((andThen round _ s).1, (andThen round _ s).2.unplaced)
    unfold andThen
    rw [hr s]
    rcases round s with ⟨e | r, s'⟩
    · rfl
    · cases r with
      | stop => rfl
      | last a => rfl
      | none => exact hlater s'
      | more a =>
        change andThen (Parser.collectFor round budget') _ s'.unplaced =
          ((andThen (Parser.collectFor round budget) _ s').1,
            (andThen (Parser.collectFor round budget) _ s').2.unplaced)
        unfold andThen
        rw [hlater s']
        rcases Parser.collectFor round budget s' with ⟨e | as, s''⟩ <;> rfl

end Placeless

/-- Not to look at lines and columns is a trait. -/
def placeless : Trait where
  holds := Placeless
  done := fun _ _ => rfl
  bind := Placeless.bind
  step := fun _ _ => Placeless.step
  owe := fun _ _ => rfl
  onError := Placeless.onError
  attempt := fun _ => Placeless.attempt
  grow := fun hs a s => Placeless.growFor hs (by simp [ParseState.unplaced]) a s
  collect := fun hr s => Placeless.collectFor hr (by simp [ParseState.unplaced]) s

/-! ### Blocks and programs -/

theorem skipStatement_unplaced (depth : Nat) (last : Option Token) (ts : List Token) :
    skipStatement depth (last.map Token.unplaced) (ts.map Token.unplaced) =
      ((skipStatement depth last ts).1.map Token.unplaced, (skipStatement depth last ts).2.map Token.unplaced) := by
  induction ts generalizing depth last with
  | nil => rfl
  | cons t ts ih =>
    have hlater (depth : Nat) := ih depth (some t)
    rw [Option.map_some] at hlater
    simp only [List.map_cons, skipStatement, Token.unplaced_kind]
    split
    all_goals try split
    all_goals first
      | rfl
      | exact hlater _

theorem skipDeclaration_unplaced (moved : Bool) (depth : Nat) (last : Option Token) (ts : List Token) :
    skipDeclaration moved depth (last.map Token.unplaced) (ts.map Token.unplaced) =
      ((skipDeclaration moved depth last ts).1.map Token.unplaced,
        (skipDeclaration moved depth last ts).2.map Token.unplaced) := by
  induction ts generalizing moved depth last with
  | nil => rfl
  | cons t ts ih =>
    have hlater (depth : Nat) := ih true depth (some t)
    rw [Option.map_some] at hlater
    have hhead : (ts.map Token.unplaced).head?.map Token.kind = ts.head?.map Token.kind := by
      rw [List.head?_map, Option.map_map]
      rfl
    simp only [List.map_cons, skipDeclaration, Token.unplaced_kind, hhead]
    split
    · rfl
    split
    all_goals try split
    all_goals first
      | rfl
      | exact hlater _

theorem toNextStatement_unplaced (s : ParseState) : toNextStatement s.unplaced = (toNextStatement s).unplaced := by
  unfold toNextStatement ParseState.unplaced
  dsimp only
  rw [skipStatement_unplaced]

theorem toNextDeclaration_unplaced (s : ParseState) :
    toNextDeclaration s.unplaced = (toNextDeclaration s).unplaced := by
  unfold toNextDeclaration ParseState.unplaced
  dsimp only
  rw [skipDeclaration_unplaced]

section
variable {g : Inner} (hg : placeless.Of g)
include hg

theorem placeless_blockRound (o : ParseOptions) (opened : Span) : Placeless (blockRound o g opened) := by
  have hfail (e : Diagnostic) : Placeless (fail e : Parser (Round Stmt)) := Trait.fail (T := placeless) e
  refine .bind (Trait.accept (T := placeless) _) fun _ => Trait.ite (T := placeless) (fun _ => rfl) ?_
  refine .bind (Trait.atEnd (T := placeless)) fun _ => Trait.ite (T := placeless) ?_ ?_
  · exact .bind (Trait.nextSpan (T := placeless)) fun _ => hfail _
  refine .bind (Trait.accept (T := placeless) _) fun _ => Trait.ite (T := placeless) (fun _ => rfl) ?_
  refine .bind (.outcome (Trait.statement hg)) fun r => ?_
  cases r with
  | ok s => exact fun _ => rfl
  | error e =>
    refine Trait.ite (T := placeless) ?_ (hfail e)
    exact .bind (.record e) fun _ => .bind (.change toNextStatement_unplaced) fun _ _ => rfl

theorem placeless_blockBody (o : ParseOptions) : Placeless (blockBody o g) :=
  .bind (Trait.expect (T := placeless) _ _) fun opened =>
    .bind (placeless.collect (placeless_blockRound hg o opened)) fun _ =>
      .bind (Trait.spanFrom (T := placeless) _) fun _ _ => rfl

end

theorem placeless_program (o : ParseOptions) : Placeless (program o) := by
  have hg : placeless.Of (Inner.ofRoom o o.maxDepth) :=
    Trait.ofRoom o (fun _ hs => placeless_blockBody hs o) o.maxDepth
  refine placeless.collect ?_
  refine .bind (Trait.atEnd (T := placeless)) fun _ => Trait.ite (T := placeless) (fun _ => rfl) ?_
  refine .bind (Trait.accept (T := placeless) _) fun _ => Trait.ite (T := placeless) (fun _ => rfl) ?_
  refine .bind (.outcome (Trait.declaration hg)) fun r => ?_
  cases r with
  | ok d => exact fun _ => rfl
  | error e =>
    refine .bind (.record e) fun _ => Trait.ite (T := placeless) ?_ fun _ => rfl
    exact .bind (.change toNextDeclaration_unplaced) fun _ _ => rfl

end Parser

/-- What is read of tokens, and what is wrong with them, depends on their kinds and stretches. -/
theorem parsePartial_of_spans {tokens tokens' : List Token}
    (h : tokens.map (fun t => (t.kind, t.span)) = tokens'.map fun t => (t.kind, t.span)) (o : ParseOptions) :
    parsePartial tokens o = parsePartial tokens' o := by
  have hunplaced (tokens : List Token) : parsePartial (tokens.map Token.unplaced) o = parsePartial tokens o := by
    have hrun := Parser.placeless_program o { rest := tokens }
    unfold parsePartial
    rw [show ({ rest := tokens.map Token.unplaced } : ParseState) = ParseState.unplaced { rest := tokens } from rfl,
      hrun]
    rcases Parser.program o { rest := tokens } with ⟨e | ds, s⟩ <;> rfl
  have hmap (tokens : List Token) : tokens.map Token.unplaced =
      (tokens.map fun t => (t.kind, t.span)).map fun k => ⟨k.1, k.2, .first⟩ := by
    rw [List.map_map]
    rfl
  rw [← hunplaced tokens, ← hunplaced tokens', hmap, hmap, h]

end ElleFrontEnd
