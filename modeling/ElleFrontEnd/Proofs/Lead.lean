import ElleFrontEnd.Proofs.ReadChain
import ElleFrontEnd.Proofs.TypeLookahead

/-!
# How an expression begins

The printed form of an expression begins like the source that it was read from: with the same stars and empty brackets,
and with the same token behind them (`Begins`).  What looks like a type at its head, when it is printed, is a name with
the stars and empty brackets behind it and nothing else, unless a parenthesis or a brace follows (`Untyped`).  So a
trial with a type ends in the same way on the source and on the printed form.
-/

namespace ElleFrontEnd

open Fragment

/-! ### The same beginning -/

/-- Whether a token shows another one that was read: two `&` are written for `&&`. -/
def Shown (written read : TokenKind) : Prop :=
  written = read ∨ written = .operator .amp ∧ read = .operator .andAnd

/-- Whether a token only stands behind or between expressions. -/
def divides : TokenKind → Bool
  | .punctuation .comma | .punctuation .semicolon | .punctuation .rParen | .punctuation .rBracket => true
  | _ => false

/-- A token that ends a run of stars and empty brackets, as it was written and as it was read. -/
structure Fore (a b : TokenKind) (ls ks : List TokenKind) : Prop where
  shown : Shown a b
  notStar : a ≠ .operator .star
  notDivides : divides a = false
  bracket : a = .punctuation .lBracket → (∃ c ls', ls = c :: ls' ∧ c ≠ .punctuation .rBracket) ∧
    ∃ d ks', ks = d :: ks' ∧ d ≠ .punctuation .rBracket

/-- The tokens `ls` were written for what was read of `ks` before `rest`, and both begin with the same run of stars and
empty brackets and the same token behind it, if there is one. -/
inductive Leads (rest : List TokenKind) : List TokenKind → List TokenKind → Prop
  | nil : Leads rest [] rest
  | star {ls ks : List TokenKind} : Leads rest ls ks → Leads rest (.operator .star :: ls) (.operator .star :: ks)
  | brackets {ls ks : List TokenKind} : Leads rest ls ks →
    Leads rest (.punctuation .lBracket :: .punctuation .rBracket :: ls)
      (.punctuation .lBracket :: .punctuation .rBracket :: ks)
  | first {a b : TokenKind} {ls ks : List TokenKind} : Fore a b ls ks → Leads rest (a :: ls) (b :: ks)

/-- A token that may be followed by anything. -/
def TokenKind.isSimple (k : TokenKind) : Bool :=
  k ≠ .operator .star && k ≠ .punctuation .lBracket && !divides k

theorem Fore.of_simple {a b : TokenKind} {ls ks : List TokenKind} (h : a.isSimple = true) (hs : Shown a b) :
    Fore a b ls ks := by
  simp [TokenKind.isSimple] at h
  exact ⟨hs, h.1.1, h.2, fun hb => absurd hb h.1.2⟩

theorem Fore.append {a b : TokenKind} {ls ks : List TokenKind} (h : Fore a b ls ks) (ms : List TokenKind) :
    Fore a b (ls ++ ms) ks := by
  refine ⟨h.shown, h.notStar, h.notDivides, fun hb => ⟨?_, (h.bracket hb).2⟩⟩
  obtain ⟨⟨c, ls', rfl, hc⟩, -⟩ := h.bracket hb
  exact ⟨c, ls' ++ ms, rfl, hc⟩

theorem skim_of_ne {a : TokenKind} {ls : List TokenKind} (hs : a ≠ .operator .star)
    (hb : a = .punctuation .lBracket → ∀ ls', ls ≠ .punctuation .rBracket :: ls') : skim (a :: ls) = a :: ls := by
  unfold skim
  split
  · rename_i h
    exact absurd (List.cons.inj h).1 hs
  · rename_i h
    exact absurd (List.cons.inj h).2 (hb (List.cons.inj h).1 _)
  · rfl

theorem Fore.skim {a b : TokenKind} {ls ks : List TokenKind} (h : Fore a b ls ks) :
    (∀ ms, skim (a :: (ls ++ ms)) = a :: (ls ++ ms)) ∧ skim (b :: ks) = b :: ks := by
  refine ⟨fun ms => skim_of_ne h.notStar fun hb ls' he => ?_, skim_of_ne ?_ fun hb ks' he => ?_⟩
  · obtain ⟨⟨c, ls'', rfl, hc⟩, -⟩ := h.bracket hb
    exact hc (List.cons.inj he).1
  · rcases h.shown with rfl | ⟨-, rfl⟩
    · exact h.notStar
    · simp
  · rcases h.shown with rfl | ⟨-, rfl⟩
    · obtain ⟨-, d, ks'', rfl, hd⟩ := h.bracket hb
      exact hd (List.cons.inj he).1
    · simp at hb

namespace Leads

variable {rest ls ks : List TokenKind}

theorem append {middle ms : List TokenKind} (h : Leads middle ls ks) (h' : Leads rest ms middle) :
    Leads rest (ls ++ ms) ks := by
  induction h with
  | nil => exact h'
  | star _ ih => exact .star ih
  | brackets _ ih => exact .brackets ih
  | first h => exact .first (h.append ms)

/-- What follows the run of stars and empty brackets: on both sides the rest, or a token. -/
theorem skim_cases (h : Leads rest ls ks) :
    skim ls = [] ∧ ks = ls ++ rest ∨ ∃ a b ls' ks', (∀ ms, skim (ls ++ ms) = a :: (ls' ++ ms)) ∧ skim ks = b :: ks' ∧
      Shown a b ∧ divides a = false := by
  induction h with
  | nil => exact .inl ⟨rfl, rfl⟩
  | star _ ih | brackets _ ih =>
    rcases ih with ⟨hs, rfl⟩ | ⟨a, b, ls', ks', hl, hk, hs⟩
    · exact .inl ⟨hs, rfl⟩
    · exact .inr ⟨a, b, ls', ks', hl, hk, hs⟩
  | @first a b ls ks h => exact .inr ⟨a, b, ls, ks, h.skim.1, h.skim.2, h.shown, h.notDivides⟩

end Leads

/-- The tokens `ls` were written for what was read of `ks` before `rest`, they open an operand, and they begin alike,
also behind a name. -/
structure Begins (ls ks rest : List TokenKind) : Prop where
  leads : Leads rest ls ks
  name : ∀ n ls', ls = .ident n :: ls' → ∃ ks', ks = .ident n :: ks' ∧ Leads rest ls' ks'
  opens : ∃ a ls', ls = a :: ls' ∧ Parser.opensOperand true a = true

namespace Begins

variable {ls ks rest : List TokenKind}

theorem append {middle ms : List TokenKind} (h : Begins ls ks middle) (h' : Leads rest ms middle) :
    Begins (ls ++ ms) ks rest := by
  obtain ⟨k, ls₁, rfl, hk⟩ := h.opens
  refine ⟨h.leads.append h', fun n ls' he => ?_, ⟨k, ls₁ ++ ms, rfl, hk⟩⟩
  obtain ⟨rfl, rfl⟩ := List.cons.inj he
  obtain ⟨ks', rfl, hl⟩ := h.name _ _ rfl
  exact ⟨ks', rfl, hl.append h'⟩

theorem of_leads {k : TokenKind} (h : Leads rest (k :: ls) ks) (hn : ∀ n, k ≠ .ident n)
    (hk : Parser.opensOperand true k = true) : Begins (k :: ls) ks rest :=
  ⟨h, fun n _ he => absurd (List.cons.inj he).1 (hn n), ⟨k, ls, rfl, hk⟩⟩

/-- The first tokens of what was written and of what was read. -/
theorem head (h : Begins ls ks rest) : ∃ a ls' b ks', ls = a :: ls' ∧ ks = b :: ks' ∧ Shown a b ∧
    Parser.opensOperand true a = true := by
  obtain ⟨a, ls', rfl, ha⟩ := h.opens
  cases h.leads with
  | star _ | brackets _ => exact ⟨_, _, _, _, rfl, rfl, .inl rfl, ha⟩
  | first hf => exact ⟨_, _, _, _, rfl, rfl, hf.shown, ha⟩

end Begins

theorem Shown.opens {a b : TokenKind} (h : Shown a b) (ha : Parser.opensOperand true a = true) :
    Parser.opensOperand true b = true := by
  rcases h with rfl | ⟨-, rfl⟩
  · exact ha
  · rfl

/-! ### Types at the head of an expression -/

/-- Whether a token can open a type. -/
def opensType : TokenKind → Bool
  | .keyword (.primitive _) | .ident _ | .punctuation .lParen => true
  | _ => false

theorem TypeExpr.layout_cons (t : TypeExpr) : ∃ k f, t.layout = .token k :: f ∧ opensType k = true := by
  match t with
  | .primitive _ _ | .named _ _ | .generic _ _ _ | .tuple _ _ _ =>
    rw [layout]
    exact ⟨_, _, rfl, rfl⟩
  | .array _ t _ | .pointer _ t _ =>
    obtain ⟨k, f, h, hk⟩ := t.layout_cons
    rw [layout, h]
    exact ⟨k, _, rfl, hk⟩

namespace Parser

variable {s s' u u' : ParseState} {f : List Fragment}

theorem typeExpr_opens {limit room angles : Nat} {t : TypeExpr}
    (h : (typeExpr limit room angles).run s = (.ok t, s')) : opensType s.peek.kind = true := by
  obtain ⟨inner, rfl, h⟩ := typeExpr_ok.1 h
  obtain ⟨base, s₁, hb, -⟩ := typeBody_ok.1 h
  rcases baseType_ok.1 hb with ⟨p, hk, -⟩ | ⟨name, hk, -⟩ | ⟨hk, -⟩ <;> simp [hk, opensType]

/-- At the head of the printed expression, whatever follows it, a trial with a type ends at a place that can be told
from the tokens.  Behind a bare name, type arguments must not follow. -/
def Untyped (room : Nat) (e : Expr) : Prop :=
  ∀ (depth : Nat) (f : List Fragment) (limit room' angles : Nat) (u u' : ParseState) (t : TypeExpr), room ≤ room' →
    (∀ span name, e = .ident span name → ¬ touchesWith (.operator .lt) f) → Faces u (e.layout depth true ++ f) →
    (typeExpr limit room' angles).run u = (.ok t, u') → TrialEnd (e.layout depth true ++ f) t u'

theorem not_touchesWith_cons {k : TokenKind} {a : Fragment} {f : List Fragment} (h : a ≠ .token k) :
    ¬ touchesWith k (a :: f) := by
  rintro ⟨ht, hn⟩
  cases a with
  | token k' => exact h (congrArg Fragment.token hn)
  | space | line => simp at ht

/-- What begins with an expression begins with the type that stands at its head. -/
theorem Untyped.extend {room : Nat} {e e' : Expr} (h : Untyped room e)
    (hl : ∀ depth, ∃ rest, e'.layout depth true = e.layout depth true ++ rest ∧
      ((∃ span name, e = .ident span name) → ∃ a rest', rest = a :: rest' ∧ a ≠ op .lt)) :
    Untyped room e' := by
  intro depth f limit room' angles u u' t hr _ hu hrun
  obtain ⟨rest, he, ha⟩ := hl depth
  rw [he, List.append_assoc] at hu ⊢
  refine h depth _ limit room' angles u u' t hr (fun span name hn => ?_) hu hrun
  obtain ⟨a, rest', rfl, hne⟩ := ha ⟨span, name, hn⟩
  exact not_touchesWith_cons hne

/-- No type begins with a token that opens none. -/
theorem Untyped.of_token {room : Nat} {e : Expr} {k : TokenKind}
    (hl : ∀ depth, ∃ f, e.layout depth true = .token k :: f)
    (hk : opensType k = false) (hg : k ≠ .operator .gt) (he : k ≠ .eof) : Untyped room e := by
  intro depth f limit room' angles u u' t _ _ hu hrun
  obtain ⟨f', hf⟩ := hl depth
  rw [hf, List.cons_append] at hu
  have := typeExpr_opens hrun
  rw [(hu.token hg he).1, hk] at this
  exact absurd this (by simp)

/-- A trial that ends before a token that stands behind expressions has read a name with its stars and brackets, which
are the whole of the expression. -/
theorem TrialEnd.divided {f f' : List Fragment} {t : TypeExpr} {ks rest : List TokenKind}
    (h : TrialEnd (f ++ f') t u) (hb : Begins (tokens f) ks rest) (hd : divides u.peek.kind = true) :
    ∃ name ls, tokens f = .ident name :: ls ∧ skim ls = [] ∧ ks = tokens f ++ rest ∧
      (∃ ms, skim (tokens f') = u.peek.kind :: ms) ∧
      (t.isNamed = true ↔ skim (ls ++ tokens f') = ls ++ tokens f') ∧
      ∃ f₁, Clear u f₁ ∧ tokens f₁ = skim (ls ++ tokens f') := by
  rcases h with hk | hk | ⟨name, ls, f₁, hls, hc, ht, hn⟩
  · simp [hk, divides] at hd
  · simp [hk, divides] at hd
  · obtain ⟨k, ls₁, hf, -⟩ := hb.opens
    rw [tokens_append, hf, List.cons_append] at hls
    obtain ⟨rfl, rfl⟩ := List.cons.inj hls
    obtain ⟨ks', rfl, hl⟩ := hb.name _ _ hf
    have hnext : next f₁ = u.peek.kind := hc.next_of_peek rfl fun hk => by simp [hk, divides] at hd
    have hskim : skim (ls₁ ++ tokens f') = u.peek.kind :: tokens (after f₁) := by
      rw [← ht]
      exact tokens_of_next hnext fun hk => by simp [hk, divides] at hd
    rcases hl.skim_cases with ⟨hs, rfl⟩ | ⟨a, b, ls', ks'', hs, -, -, ha⟩
    · rw [skim_append hs] at hskim
      exact ⟨name, ls₁, hf, hs, by rw [hf]; rfl, ⟨_, hskim⟩, hn, f₁, hc, ht⟩
    · rw [hs] at hskim
      rw [← (List.cons.inj hskim).1] at hd
      simp [ha] at hd

/-- A trial that ends before a parenthesis behind an expression, and what follows the parenthesis. -/
theorem TrialEnd.enclosed {f f' : List Fragment} {t : TypeExpr} {ks rest : List TokenKind}
    (h : TrialEnd (f ++ mark .rParen :: f') t u) (hb : Begins (tokens f) ks rest)
    (hk : u.peek.kind = .punctuation .rParen) : ∃ name ls, tokens f = .ident name :: ls ∧ skim ls = [] ∧
      ks = tokens f ++ rest ∧ (t.isNamed = true ↔ ls = []) ∧
      (u.advance.peek.kind = next f' ∨ u.advance.peek.kind = .operator .shr) := by
  obtain ⟨name, ls, hl, hskim, hks, -, hnamed, f₁, hc, htok⟩ := h.divided hb (by simp [hk, divides])
  have hend : skim (.punctuation .rParen :: tokens f') = .punctuation .rParen :: tokens f' :=
    skim_of_ne (by simp) (by simp)
  rw [tokens_token, skim_append_eq hskim hend] at hnamed
  rw [tokens_token, skim_append hskim, hend] at htok
  refine ⟨name, ls, hl, hskim, hks, hnamed, ?_⟩
  obtain ⟨hn₁, htok₁⟩ := next_of_tokens htok
  have hc' := hc.advance (by simp [hn₁]) (by simp [hn₁])
  rcases hc'.fragments.peek_cases hc'.owed with hp | ⟨-, hp⟩
  · exact .inl (hp.trans (next_of_tokens_eq htok₁))
  · exact .inr hp

end Parser

end ElleFrontEnd
