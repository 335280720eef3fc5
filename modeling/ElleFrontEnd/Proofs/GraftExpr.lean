import ElleFrontEnd.Proofs.GraftStmt
import ElleFrontEnd.Proofs.GraftTrial
import ElleFrontEnd.Proofs.Header
import ElleFrontEnd.Proofs.Lead

/-!
# Expressions in another place

An expression is read in another place as it was, and outside of a header even if it stood in one (`Inner.Grafts`).
What is left to see at the end of the stretch is a semicolon, or the end of the source, with which no expression goes
on.  So each parser of the grammar ends where it did.
-/

namespace ElleFrontEnd

open ElleFrontEnd.Parser (typeExpr)

/-- The run ends within the stretch, or where it ends, and did not pass over the fields of a struct literal for being
in a header. -/
structure EndsWithin (n : Nat) (header : Bool) (s : ParseState) : Prop where
  length_le : n ≤ s.rest.length
  fields : header = true → ¬ FieldsAhead n s

namespace EndsWithin

variable {n : Nat} {header : Bool} {s s' : ParseState}

theorem plain (h : n ≤ s.rest.length) : EndsWithin n false s := ⟨h, fun h => by cases h⟩

theorem of_header (h : n = s.rest.length) : EndsWithin n header s :=
  ⟨Nat.le_of_eq h, fun _ hf => Nat.lt_irrefl n (h ▸ hf.length_lt)⟩

/-- So do the runs before it. -/
theorem back (h : EndsWithin n header s') (ha : Advances s s') (ht : header = true → Trail s s') :
    EndsWithin n header s :=
  ⟨Nat.le_trans h.length_le ha.length_le, fun hheader hf => h.fields hheader (hf.along (ht hheader))⟩

end EndsWithin

/-- Expressions and blocks are read in another place as they were. -/
structure Inner.Grafts (n : Nat) (y : List Token) (g : Inner) : Prop where
  expression : ∀ {header s e s'}, EndsWithin n header s' → (g.expression header).run s = (.ok e, s') →
    (g.expression false).run (s.graft n y) = (.ok e, s'.graft n y)
  chain : ∀ {header level s e s'}, EndsWithin n header s' → (g.chain header level).run s = (.ok e, s') →
    (g.chain false level).run (s.graft n y) = (.ok e, s'.graft n y)
  unary : ∀ {header s e s'}, EndsWithin n header s' → (g.unary header).run s = (.ok e, s') →
    (g.unary false).run (s.graft n y) = (.ok e, s'.graft n y)
  block : ∀ {s body s'}, n ≤ s'.rest.length → g.block.run s = (.ok body, s') →
    g.block.run (s.graft n y) = (.ok body, s'.graft n y)

namespace Nested

variable {s s' : ParseState}

theorem length_le (h : Nested s s') : s'.rest.length ≤ s.rest.length := by
  obtain ⟨used, hp, -⟩ := h
  exact hp.length_le

theorem last_isSome (h : Nested s s') (hs : s.last.isSome = true) : s'.last.isSome = true := by
  obtain ⟨used, hp, -⟩ := h
  simp [hp.last, Option.isSome_or, hs]

end Nested

namespace Parser

variable {n : Nat} {y : List Token} {s s₁ s' : ParseState} {g : Inner} {header : Bool} {limit room : Nat}

/-! ### Lists -/

theorem lt_of_passed {k : TokenKind} (hk : s.peek.kind = k) (he : k ≠ .eof) (hn : n ≤ s.advance.rest.length) :
    n < s.rest.length := Nat.lt_of_le_of_lt hn (length_advance_lt (hk ▸ he))

theorem peek_graft_ne {k : TokenKind} (hy : Inert y) (hn : n ≤ s.rest.length) (h : s.peek.kind ≠ k)
    (hk : k ≠ .punctuation .semicolon) (he : k ≠ .eof) : (s.graft n y).peek.kind ≠ k := by
  rcases Nat.lt_or_eq_of_le hn with hlt | heq
  · rwa [ParseState.peek_graft hlt]
  · rcases ParseState.peek_graft_of_le hy (Nat.le_of_eq heq.symm) with h' | h' <;> rw [h']
    · exact hk.symm
    · exact he.symm

theorem endsList_graft {close : Punctuation} (hlt : n < s.rest.length) :
    endsList close (s.graft n y) ↔ endsList close s := by
  unfold endsList ParseState.atEnd
  rw [ParseState.peek_graft hlt]

theorem commaListed_graft {α : Type} {close : Punctuation} {item : Parser α} {as : List α}
    (ha : ∀ s, Advances s (item s).2)
    (hi : ∀ {s a s'}, n < s'.rest.length → item.run s = (.ok a, s') →
      item.run (s.graft n y) = (.ok a, s'.graft n y))
    (hlt : n < s'.rest.length) (h : CommaListed close item s as s') :
    CommaListed close item (s.graft n y) as (s'.graft n y) := by
  induction h with
  | nil h => exact .nil ((endsList_graft hlt).2 h)
  | last hne h hsep =>
    have hle := (advances_run ha h).length_le
    refine .last (by rwa [endsList_graft (Nat.lt_of_lt_of_le hlt hle)]) (hi hlt h) ?_
    rwa [atComma, ParseState.peek_graft hlt]
  | @more a as s s₁ s' hne h hsep hrest ih =>
    have hle := (advances_of_listed ha hrest).length_le
    have hlt₁ : n < s₁.rest.length := lt_of_passed hsep (by simp) (Nat.le_trans (Nat.le_of_lt hlt) hle)
    refine .more (by rwa [endsList_graft (Nat.lt_of_lt_of_le hlt₁ (advances_run ha h).length_le)]) (hi hlt₁ h) ?_ ?_
    · rwa [atComma, ParseState.peek_graft hlt₁]
    · rw [ParseState.advance_graft hlt₁]
      exact ih hlt

section
variable (hy : Inert y) (hg : g.Settled) (hn : g.Nesting) (hG : g.type = typeExpr limit room) (ht : g.Trailing)
  (hgr : g.Grafts n y)

section
include hG

theorem innerType_graft {angles : Nat} {t : TypeExpr} (hcalm : Calm n y s s')
    (h : (g.type angles).run s = (.ok t, s')) : (g.type angles).run (s.graft n y) = (.ok t, s'.graft n y) := by
  rw [hG] at h ⊢
  exact graft_typeExpr hcalm h

theorem innerTypeArgs_graft {args : List TypeExpr} (hlt : n < s'.rest.length)
    (h : (typeArgs g.type 0).run s = (.ok args, s')) :
    (typeArgs g.type 0).run (s.graft n y) = (.ok args, s'.graft n y) := by
  rw [hG] at h ⊢
  exact typeArgs_graft (advances_typeExpr limit room) (fun _ _ _ _ hcalm h => graft_typeExpr hcalm h) h
    (Nat.le_of_lt hlt) (.inl hlt)

end

include hg hgr

theorem commaExprs_graft {close : Punctuation} {es : List Expr} (hlt : n < s'.rest.length)
    (h : CommaListed close (g.expression false) s es s') :
    CommaListed close (g.expression false) (s.graft n y) es (s'.graft n y) :=
  commaListed_graft (hg.expression false) (fun hlt h => hgr.expression (.plain (Nat.le_of_lt hlt)) h) hlt h

theorem arguments_graft {es : List Expr} (hle : n ≤ s'.rest.length) (h : (arguments g).run s = (.ok es, s')) :
    (arguments g).run (s.graft n y) = (.ok es, s'.graft n y) := by
  obtain ⟨hk, s₁, hl, hk₁, rfl⟩ := (arguments_ok hg).1 h
  have hlt₁ := lt_of_passed hk₁ (by simp) hle
  have hlt := lt_of_passed hk (by simp)
    (Nat.le_trans (Nat.le_of_lt hlt₁) (advances_of_listed (hg.expression false) hl).length_le)
  refine (arguments_ok hg).2 ⟨by rwa [ParseState.peek_graft hlt], s₁.graft n y, ?_, by rwa [ParseState.peek_graft hlt₁],
    ParseState.advance_graft hlt₁⟩
  rw [ParseState.advance_graft hlt]
  exact commaExprs_graft hg hgr hlt₁ hl

omit hgr
include hy hG

/-! ### Parameter lists and lambdas -/

theorem param_graft {p : Param} (hlt : n < s'.rest.length)
    (h : (param g).run s = (.ok p, s')) : (param g).run (s.graft n y) = (.ok p, s'.graft n y) := by
  have hlt₀ : n < s.rest.length := Nat.lt_of_lt_of_le hlt (advances_run (advances_param hg) h).length_le
  refine param_ok.2 ?_
  rw [ParseState.peek_graft hlt₀, ParseState.advance_graft hlt₀]
  rcases param_ok.1 h with ⟨hk, ⟨name, hk₁, rfl, rfl⟩ | ⟨hk₁, rfl, rfl⟩⟩ | ⟨hk, hk₁, type, s₁, name, ht, hk₂, rfl, rfl⟩ |
    ⟨hk, hk₁, type, s₁, ht, hname⟩
  · have hlt₁ := lt_of_passed hk₁ (by simp) (Nat.le_of_lt hlt)
    have hlast := ParseState.last_isSome_advance (s := s.advance) (by simp [hk₁])
    refine .inl ⟨hk, .inl ⟨name, by rwa [ParseState.peek_graft hlt₁], (ParseState.advance_graft hlt₁).symm, ?_⟩⟩
    rw [ParseState.spanFrom_graft hlast]
  · have hlast := ParseState.last_isSome_advance (s := s) (by simp [hk])
    refine .inl ⟨hk, .inr ⟨by rwa [ParseState.peek_graft hlt], rfl, ?_⟩⟩
    rw [ParseState.spanFrom_graft hlast]
  · have hlt₂ := lt_of_passed hk₂ (by simp) (Nat.le_of_lt hlt)
    have hle := (advances_run (hg.type 0) ht).length_le
    have hmark : s.advance.peek.kind = .ident noFormatMarker := by
      rwa [← ParseState.kindAt_one (by simp [hk])]
    have hlt₁ := lt_of_passed hmark (by simp) (Nat.le_trans (Nat.le_of_lt hlt₂) hle)
    have hone : n + 1 < s.rest.length := Nat.lt_of_le_of_lt hlt₁ (length_advance_lt (by simp [hk]))
    have hlast := ParseState.last_isSome_advance (s := s₁) (by simp [hk₂])
    refine .inr (.inl ⟨hk, by rwa [ParseState.kindAt_graft hone], type, s₁.graft n y, name, ?_,
      by rwa [ParseState.peek_graft hlt₂], (ParseState.advance_graft hlt₂).symm, ?_⟩)
    · rw [ParseState.advance_graft hlt₁]
      exact innerType_graft hG (.inert hy (Nat.le_of_lt hlt₂)) ht
    · rw [ParseState.spanFrom_graft hlast]
  · have hno : ¬ (s.peek.kind = .punctuation .atSign ∧ (s.graft n y).kindAt 1 = .ident noFormatMarker) := by
      rintro ⟨hk', -⟩
      rw [hG] at ht
      have hopens := typeExpr_opens ht
      rw [hk'] at hopens
      cases hopens
    have hle : n ≤ s₁.rest.length := by
      rcases hname with ⟨name, hk₂, rfl, -⟩ | ⟨-, rfl, -⟩
      · exact Nat.le_of_lt (lt_of_passed hk₂ (by simp) (Nat.le_of_lt hlt))
      · exact Nat.le_of_lt hlt
    refine .inr (.inr ⟨hk, hno, type, s₁.graft n y, innerType_graft hG (.inert hy hle) ht, ?_⟩)
    rcases hname with ⟨name, hk₂, rfl, rfl⟩ | ⟨hk₂, rfl, rfl⟩
    · have hlt₁ := lt_of_passed hk₂ (by simp) (Nat.le_of_lt hlt)
      have hlast := ParseState.last_isSome_advance (s := s₁) (by simp [hk₂])
      refine .inl ⟨name, by rwa [ParseState.peek_graft hlt₁], (ParseState.advance_graft hlt₁).symm, ?_⟩
      rw [ParseState.spanFrom_graft hlast]
    · have hlast : s'.last.isSome = true := by
        have hadv := advances_run (hg.type 0) ht
        rw [hG] at ht
        exact ParseState.last_isSome_of_lt hadv (length_of_typeExpr ht)
      refine .inr ⟨by rwa [ParseState.peek_graft hlt], rfl, ?_⟩
      rw [ParseState.spanFrom_graft hlast]

omit hg hG in
theorem metaBinding_graft {name : Option String} (hlt : n < s'.rest.length)
    (h : metaBinding.run s = (.ok name, s')) : metaBinding.run (s.graft n y) = (.ok name, s'.graft n y) := by
  rcases metaBinding_ok.1 h with ⟨hk, m, hk₁, rfl, hend⟩ | ⟨hno, rfl, rfl⟩
  · have hlt₂ : n < s.advance.advance.rest.length := by
      rcases hend with ⟨hk₂, rfl⟩ | ⟨hk₂, rfl⟩
      · exact hlt
      · exact lt_of_passed hk₂ (by simp) (Nat.le_of_lt hlt)
    have hlt₁ := lt_of_passed hk₁ (by simp) (Nat.le_of_lt hlt₂)
    have hlt₀ := lt_of_passed hk (by simp) (Nat.le_of_lt hlt₁)
    refine metaBinding_ok.2 (.inl ?_)
    rw [ParseState.peek_graft hlt₀, ParseState.advance_graft hlt₀, ParseState.peek_graft hlt₁,
      ParseState.advance_graft hlt₁, ParseState.peek_graft hlt₂, ParseState.advance_graft hlt₂]
    refine ⟨hk, m, hk₁, rfl, hend.imp (fun ⟨hk₂, hs⟩ => ⟨hk₂, by rw [hs]⟩) fun ⟨hk₂, hs⟩ => ⟨hk₂, by rw [hs]⟩⟩
  · refine metaBinding_ok.2 (.inr ⟨?_, rfl, rfl⟩)
    rw [ParseState.peek_graft hlt]
    rintro ⟨hk, hname⟩
    refine hno ⟨hk, ?_⟩
    by_cases hone : n + 1 < s'.rest.length
    · rwa [ParseState.kindAt_graft hone] at hname
    · rcases kindAt_graft_end hy (show s'.rest.length = n + 1 by omega) with h | h <;>
        simp [h, TokenKind.ident?] at hname

theorem paramList_graft {list : ParamList} (hle : n ≤ s'.rest.length)
    (h : (paramList g).run s = (.ok list, s')) : (paramList g).run (s.graft n y) = (.ok list, s'.graft n y) := by
  obtain ⟨hk, s₁, s₂, hm, hl, hk₂, rfl⟩ := (paramList_ok hg).1 h
  have hlt₂ := lt_of_passed hk₂ (by simp) hle
  have hlt₁ : n < s₁.rest.length :=
    Nat.lt_of_lt_of_le hlt₂ (advances_of_listed (advances_param hg) hl).length_le
  have hlt₀ : n < s.rest.length := by
    refine lt_of_passed hk (by simp) (Nat.le_trans (Nat.le_of_lt hlt₁) ?_)
    obtain ⟨used, hp, -⟩ := nests_metaBinding hm
    exact hp.length_le
  refine (paramList_ok hg).2 ⟨by rwa [ParseState.peek_graft hlt₀], s₁.graft n y, s₂.graft n y, ?_,
    commaListed_graft (advances_param hg) (param_graft hy hg hG) hlt₂ hl, by rwa [ParseState.peek_graft hlt₂],
    ParseState.advance_graft hlt₂⟩
  rw [ParseState.advance_graft hlt₀]
  exact metaBinding_graft hy hlt₁ hm

include hn hgr

theorem lambda_graft {e : Expr} (hw : EndsWithin n header s') (h : (lambda g header).run s = (.ok e, s')) :
    (lambda g false).run (s.graft n y) = (.ok e, s'.graft n y) := by
  obtain ⟨hk, params, s₁, hp, hbody⟩ := lambda_ok.1 h
  have hparams := nests_paramList hg hn hp
  have hrest : Nested s₁ s' := by
    rcases hbody with ⟨-, body, hb, -⟩ | ⟨-, body, hb, -⟩
    · exact hn.block hb
    · exact hn.expression header hb
  have hle₁ : n ≤ s₁.rest.length := Nat.le_trans hw.length_le hrest.length_le
  have hlt : n < s.rest.length := lt_of_passed hk (by simp) (Nat.le_trans hle₁ hparams.length_le)
  have hlast : s'.last.isSome = true :=
    (hparams.trans hrest).last_isSome (ParseState.last_isSome_advance (by simp [hk]))
  refine lambda_ok.2 ⟨by rwa [ParseState.peek_graft hlt], params, s₁.graft n y, ?_, ?_⟩
  · rw [ParseState.advance_graft hlt]
    exact paramList_graft hy hg hG hle₁ hp
  rw [ParseState.spanFrom_graft hlast, ParseState.peek_graft hlt]
  rcases hbody with ⟨hk₁, body, hb, rfl⟩ | ⟨hk₁, body, hb, rfl⟩
  · have hlt₁ : n < s₁.rest.length := Nat.lt_of_le_of_lt hw.length_le (hg.shrinks _ _ _ hb)
    exact .inl ⟨by rwa [ParseState.peek_graft hlt₁], body, hgr.block hw.length_le hb, rfl⟩
  · exact .inr ⟨peek_graft_ne hy hle₁ hk₁ (by simp) (by simp), body, hgr.expression hw hb, rfl⟩

/-! ### Names and struct literals -/

omit hy hg hG in
theorem fieldInit_graft {f : FieldInit} (hle : n ≤ s'.rest.length) (h : (fieldInit g).run s = (.ok f, s')) :
    (fieldInit g).run (s.graft n y) = (.ok f, s'.graft n y) := by
  obtain ⟨name, value, hk, hk₁, hv, rfl⟩ := fieldInit_ok.1 h
  have hvalue := hn.expression false hv
  have hlt₁ := lt_of_passed hk₁ (by simp) (Nat.le_trans hle hvalue.length_le)
  have hlt := lt_of_passed hk (by simp) (Nat.le_of_lt hlt₁)
  have hlast := hvalue.last_isSome (ParseState.last_isSome_advance (by simp [hk₁]))
  refine fieldInit_ok.2 ⟨name, value, by rwa [ParseState.peek_graft hlt], ?_, ?_, ?_⟩
  · rwa [ParseState.advance_graft hlt, ParseState.peek_graft hlt₁]
  · rw [ParseState.advance_graft hlt, ParseState.advance_graft hlt₁]
    exact hgr.expression (.plain hle) hv
  · rw [ParseState.spanFrom_graft hlast, ParseState.peek_graft hlt]

omit hg hG hn hgr in
theorem pathTail_graft {names : List String} (hle : n ≤ s'.rest.length) (h : PathTail s names s') :
    PathTail (s.graft n y) names (s'.graft n y) := by
  induction h with
  | nil hk => exact .nil (peek_graft_ne hy hle hk (by simp) (by simp))
  | @cons s s' name names hk hk₁ h ih =>
    have hlt₁ := lt_of_passed hk₁ (by simp) (Nat.le_trans hle (nested_of_pathTail h).length_le)
    have hlt := lt_of_passed hk (by simp) (Nat.le_of_lt hlt₁)
    refine .cons (by rwa [ParseState.peek_graft hlt]) ?_ ?_
    · rwa [ParseState.advance_graft hlt, ParseState.peek_graft hlt₁]
    · rw [ParseState.advance_graft hlt, ParseState.advance_graft hlt₁]
      exact ih hle

omit hy hn hgr in
theorem structTypeArgs_graft {generics : Option (List TypeExpr)} (hlt : n < s'.rest.length)
    (h : (structTypeArgs g).run s = (.ok (some generics), s')) :
    (structTypeArgs g).run (s.graft n y) = (.ok (some generics), s'.graft n y) := by
  refine (structTypeArgs_some hg).2 ?_
  rcases (structTypeArgs_some hg).1 h with ⟨hk, hadj, args, rfl, hargs, ho⟩ | ⟨hno, rfl, rfl⟩
  · have hle := (advances_run (fun s => Alike.advances (fun us => Alike.typeArgs (.refl us)
      ((hg.steady us).type) 0) s) hargs).length_le
    have hlt₀ := Nat.lt_of_lt_of_le hlt hle
    rw [ParseState.peek_graft hlt₀, ParseState.isAdjacent_graft hlt₀]
    exact .inl ⟨hk, hadj, args, rfl, innerTypeArgs_graft hG hlt hargs, ho⟩
  · rw [ParseState.peek_graft hlt, ParseState.isAdjacent_graft hlt]
    exact .inr ⟨hno, rfl, rfl⟩

omit hy hg hG hn hgr in
/-- The tokens by which the fields of a struct literal are known lie before its closing brace. -/
theorem atBody_graft {item : Parser FieldInit} {fields : List FieldInit} (ha : ∀ s, Advances s (item s).2)
    (hl : CommaListed .rBrace item s.advance fields s₁) (hk : s₁.peek.kind = .punctuation .rBrace)
    (hlt : n < s₁.rest.length) (h : atBody s) : atBody (s.graft n y) := by
  obtain ⟨hk₀, hbody⟩ := h
  have hadv := advances_of_listed ha hl
  have hless := length_advance_lt (s := s) (by simp [hk₀])
  have hle := hadv.length_le
  have hone : n + 1 < s.rest.length := by omega
  refine ⟨by rwa [ParseState.peek_graft (by omega)], ?_⟩
  rw [ParseState.kindAt_graft hone]
  refine hbody.imp_right fun ⟨hname, heq⟩ => ⟨hname, ?_⟩
  -- behind a name the closing brace is not next
  have hless₁ : s₁.rest.length < s.advance.rest.length := by
    refine Nat.lt_of_le_of_ne hle fun hlen => ?_
    obtain ⟨used, hu⟩ := hadv.passes
    obtain rfl : used = [] := by
      have := congrArg List.length hu.rest
      rw [List.length_append] at this
      exact List.eq_nil_of_length_eq_zero (by omega)
    have hpeek : s.advance.peek = s₁.peek := by
      obtain ⟨ts, hr⟩ := ParseState.rest_of_peek (s := s₁) (by simp [hk])
      exact ParseState.peek_cons (hu.rest.trans hr)
    rw [ParseState.kindAt_one (by simp [hk₀]), hpeek, hk] at hname
    cases hname
  rwa [ParseState.kindAt_graft (by omega)]

omit hy in
theorem structLiteral_graft {start : Nat} {name : String} {e : Expr} (hle : n ≤ s'.rest.length)
    (h : (structLiteral? g start name).run s = (.ok (some e), s')) :
    (structLiteral? g start name).run (s.graft n y) = (.ok (some e), s'.graft n y) := by
  obtain ⟨generics, s₁, fields, s₂, ha, hb, hl, hk₂, rfl, rfl⟩ := (structLiteral?_some hg).1 h
  have hlt₂ := lt_of_passed hk₂ (by simp) hle
  have hfields := (nests_fieldInit hn).commaListed hl
  have hlt₁ := lt_of_passed hb.1 (by simp) (Nat.le_trans (Nat.le_of_lt hlt₂) hfields.length_le)
  refine (structLiteral?_some hg).2 ⟨generics, s₁.graft n y, fields, s₂.graft n y, structTypeArgs_graft hg hG hlt₁ ha,
    atBody_graft (advances_fieldInit hg) hl hk₂ hlt₂ hb, ?_, by rwa [ParseState.peek_graft hlt₂],
    (ParseState.advance_graft hlt₂).symm, ?_⟩
  · rw [ParseState.advance_graft hlt₁]
    exact commaListed_graft (advances_fieldInit hg) (fun hlt h => fieldInit_graft hn hgr (Nat.le_of_lt hlt) h) hlt₂ hl
  · rw [ParseState.spanFrom_graft (ParseState.last_isSome_advance (by simp [hk₂]))]

theorem nameExpr_graft {e : Expr} (hw : EndsWithin n header s') (h : (nameExpr g header).run s = (.ok e, s')) :
    (nameExpr g false).run (s.graft n y) = (.ok e, s'.graft n y) := by
  obtain ⟨name, hk, hform⟩ := (nameExpr_ok hg).1 h
  have hlast := ParseState.last_isSome_advance (s := s) (by simp [hk])
  obtain ⟨used, hu⟩ : ∃ used, Passes s.advance used s' := by
    rcases hform with ⟨-, names, hp, -⟩ | ⟨-, -, h⟩ | ⟨-, -, rfl, -⟩
    · obtain ⟨used, hu, -⟩ := nested_of_pathTail hp
      exact ⟨used, hu⟩
    · exact (advances_run (Alike.advances fun us => Alike.structLiteral? (.refl us) (hg.steady us) _ _ _) h).passes
    · exact ⟨[], .refl _⟩
  have hle : n ≤ s.advance.rest.length := Nat.le_trans hw.length_le hu.length_le
  have hlt := lt_of_passed hk (by simp) hle
  have hlast' : s'.last.isSome = true := by simp [hu.last, Option.isSome_or, hlast]
  refine (nameExpr_ok hg).2 ⟨name, by rwa [ParseState.peek_graft hlt], ?_⟩
  rw [ParseState.advance_graft hlt, ParseState.peek_graft hlt, ParseState.spanFrom_graft hlast']
  rcases hform with ⟨hk₁, names, hp, rfl⟩ | ⟨hk₁, -, h⟩ | ⟨hk₁, hbody, rfl, rfl⟩
  · have hlt₁ : n < s.advance.rest.length := by
      cases hp with
      | nil hno => exact absurd hk₁ hno
      | cons _ hk₂ hp =>
        exact lt_of_passed hk₁ (by simp)
          (Nat.le_of_lt (lt_of_passed hk₂ (by simp) (Nat.le_trans hw.length_le (nested_of_pathTail hp).length_le)))
    exact .inl ⟨by rwa [ParseState.peek_graft hlt₁], names, pathTail_graft hy hw.length_le hp, rfl⟩
  · refine .inr (.inl ⟨peek_graft_ne hy hle hk₁ (by simp) (by simp), rfl, ?_⟩)
    exact structLiteral_graft hg hn hG hgr hw.length_le h
  · refine .inr (.inr ⟨peek_graft_ne hy hle hk₁ (by simp) (by simp), .inr ?_, rfl, rfl⟩)
    rcases hbody with hheader | hno
    · by_contra hbody
      obtain ⟨generics, s₁, hrun, hlt₁, hb⟩ := body_of_graft hg hG hy hle hbody
      exact hw.fields hheader (fieldsAhead_of_body hg hn hG hrun hlt₁ hb)
    · exact noBody_graft hg hG hy hle hno

/-! ### Arrays, and the forms of `#` and `$` -/

omit hy hn hG hgr in
theorem length_of_arrayLiteral {start : Nat} {isStatic : Bool} {e : Expr}
    (h : (arrayLiteral g start isStatic).run s = (.ok e, s')) : s'.rest.length < s.rest.length := by
  obtain ⟨hk, element, s₁, elements, s₂, hl, hk₂, rfl, -, htag⟩ := (arrayLiteral_ok hg).1 h
  have hclose := length_advance_lt (s := s₂) (by simp [hk₂])
  have hopen := length_advance_lt (s := s) (by simp [hk])
  have hlist := (advances_of_listed (hg.expression false) hl).length_le
  have htag : s₁.rest.length ≤ s.advance.rest.length := by
    rcases htag with ⟨type, s₀, -, ht, -, rfl⟩ | ⟨-, rfl, -⟩
    · exact Nat.le_trans (Advances.advance s₀).length_le (advances_run (hg.type 0) ht).length_le
    · exact Nat.le_refl _
  omega

theorem arrayLiteral_graft {start : Nat} {isStatic : Bool} {e : Expr} (hle : n ≤ s'.rest.length)
    (h : (arrayLiteral g start isStatic).run s = (.ok e, s')) :
    (arrayLiteral g start isStatic).run (s.graft n y) = (.ok e, s'.graft n y) := by
  have hlt : n < s.rest.length := Nat.lt_of_le_of_lt hle (length_of_arrayLiteral hg h)
  obtain ⟨hk, element, s₁, elements, s₂, hl, hk₂, rfl, rfl, htag⟩ := (arrayLiteral_ok hg).1 h
  have hlt₂ := lt_of_passed hk₂ (by simp) hle
  have hlist := (hn.expression false).commaListed hl
  have hle₁ : n ≤ s₁.rest.length := Nat.le_trans (Nat.le_of_lt hlt₂) hlist.length_le
  refine (arrayLiteral_ok hg).2 ⟨by rwa [ParseState.peek_graft hlt], element, s₁.graft n y, elements, s₂.graft n y,
    commaExprs_graft hg hgr hlt₂ hl, by rwa [ParseState.peek_graft hlt₂], (ParseState.advance_graft hlt₂).symm, ?_, ?_⟩
  · rw [ParseState.spanFrom_graft (ParseState.last_isSome_advance (by simp [hk₂]))]
  rw [ParseState.advance_graft hlt]
  rcases htag with ⟨type, s₀, rfl, ht, hk₀, rfl⟩ | ⟨rfl, rfl, hno⟩
  · have hlt₀ := lt_of_passed hk₀ (by simp) hle₁
    refine .inl ⟨type, s₀.graft n y, rfl, innerType_graft hG (.before hlt₀ (by simp [hk₀])) ht, ?_,
      (ParseState.advance_graft hlt₀).symm⟩
    rwa [ParseState.peek_graft hlt₀]
  · exact .inr ⟨rfl, rfl, elementTag_fails_graft hG hy hn hlist (by rw [hk₂]; rfl) hle hno⟩

omit hy hg hG in
theorem optionalOperand_graft {o : Option Expr} (hlt : n < s'.rest.length)
    (h : (optionalOperand g).run s = (.ok o, s')) : (optionalOperand g).run (s.graft n y) = (.ok o, s'.graft n y) := by
  have hle := (nests_optionalOperand hn h).length_le
  have hlt₀ := Nat.lt_of_lt_of_le hlt hle
  refine optionalOperand_ok.2 ?_
  rw [ParseState.peek_graft hlt₀, ParseState.advance_graft hlt₀]
  rcases optionalOperand_ok.1 h with ⟨hk, e, rfl, he⟩ | ⟨hk, rfl, rfl⟩
  · exact .inl ⟨hk, e, rfl, hgr.expression (.plain (Nat.le_of_lt hlt)) he⟩
  · exact .inr ⟨hk, rfl, rfl⟩

theorem operands_graft {x : Directive} (hlt : n < s'.rest.length) (h : Operands g s s' x) :
    Operands g (s.graft n y) (s'.graft n y) x := by
  have hlt₀ := Nat.lt_of_lt_of_le hlt (nested_of_operands hn h).length_le
  have hpeek := ParseState.peek_graft (y := y) hlt₀
  have hend := Nat.le_of_lt hlt
  cases x with
  | len e | free e | setAllocator e => exact ⟨by rw [hpeek]; exact h.1, hgr.expression (.plain hend) h.2⟩
  | size type => exact ⟨by rw [hpeek]; exact h.1, innerType_graft hG (.inert hy hend) h.2⟩
  | ident name =>
    obtain ⟨hk, rfl⟩ := h
    exact ⟨by rwa [hpeek], (ParseState.advance_graft hlt₀).symm⟩
  | alloc type count =>
    obtain ⟨hk, s₁, ht, ho⟩ := h
    have hle₁ : n ≤ s₁.rest.length := Nat.le_trans hend (nests_optionalOperand hn ho).length_le
    exact ⟨by rwa [hpeek], s₁.graft n y, innerType_graft hG (.inert hy hle₁) ht, optionalOperand_graft hn hgr hlt ho⟩
  | realloc e type count =>
    obtain ⟨hk, s₁, s₂, he, hk₁, hk₂, ht, ho⟩ := h
    have hle₂ : n < s₂.rest.length := Nat.lt_of_lt_of_le hlt (nests_optionalOperand hn ho).length_le
    have hlt₁ : n < s₁.advance.rest.length := Nat.lt_of_lt_of_le hle₂ (advances_run (hg.type 0) ht).length_le
    have hlt₁' := lt_of_passed hk₁ (by simp) (Nat.le_of_lt hlt₁)
    refine ⟨by rwa [hpeek], s₁.graft n y, s₂.graft n y, hgr.expression (.plain (Nat.le_of_lt hlt₁')) he,
      by rwa [ParseState.peek_graft hlt₁'], ?_, ?_, optionalOperand_graft hn hgr hlt ho⟩
    · rwa [ParseState.advance_graft hlt₁', ParseState.peek_graft hlt₁]
    · rw [ParseState.advance_graft hlt₁']
      exact innerType_graft hG (.inert hy (Nat.le_of_lt hle₂)) ht
  | env => exact h.elim
  | resetAllocator =>
    obtain rfl : s' = s := h
    rfl

theorem directiveOf_graft {d : DirectiveName} {x : Directive} (hle : n ≤ s'.rest.length)
    (h : (directiveOf g d).run s = (.ok x, s')) : (directiveOf g d).run (s.graft n y) = (.ok x, s'.graft n y) := by
  obtain ⟨hname, hform⟩ := directiveOf_ok.1 h
  refine directiveOf_ok.2 ⟨hname, ?_⟩
  rcases hform with ⟨henv, hk, rfl⟩ | ⟨henv, hk, s₁, ho, hk₁, rfl⟩
  · exact .inl ⟨henv, peek_graft_ne hy hle hk (by simp) (by simp), rfl⟩
  · have hlt₁ := lt_of_passed hk₁ (by simp) hle
    have hlt := lt_of_passed hk (by simp) (Nat.le_trans (Nat.le_of_lt hlt₁) (nested_of_operands hn ho).length_le)
    refine .inr ⟨henv, by rwa [ParseState.peek_graft hlt], s₁.graft n y, ?_, by rwa [ParseState.peek_graft hlt₁],
      (ParseState.advance_graft hlt₁).symm⟩
    rw [ParseState.advance_graft hlt]
    exact operands_graft hy hg hn hG hgr hlt₁ ho

theorem hashExpr_graft {e : Expr} (hle : n ≤ s'.rest.length) (h : (hashExpr g).run s = (.ok e, s')) :
    (hashExpr g).run (s.graft n y) = (.ok e, s'.graft n y) := by
  obtain ⟨hk, hform⟩ := hashExpr_ok.1 h
  refine hashExpr_ok.2 ?_
  rcases hform with ⟨hk₁, ha⟩ | ⟨name, x, hk₁, hd, hx, rfl⟩
  · have hlt₁ : n < s.advance.rest.length := Nat.lt_of_le_of_lt hle (length_of_arrayLiteral hg ha)
    have hlt := lt_of_passed hk (by simp) (Nat.le_of_lt hlt₁)
    rw [ParseState.peek_graft hlt, ParseState.advance_graft hlt, ParseState.peek_graft hlt₁]
    exact ⟨hk, .inl ⟨hk₁, arrayLiteral_graft hy hg hn hG hgr hle ha⟩⟩
  · have hadv := advances_run (Alike.advances fun us => Alike.directiveOf (.refl us) (hg.steady us) x.name) hx
    have hlt₁ := lt_of_passed hk₁ (by simp) (Nat.le_trans hle hadv.length_le)
    have hlt := lt_of_passed hk (by simp) (Nat.le_of_lt hlt₁)
    have hlast := ParseState.last_isSome_of_advances hadv (ParseState.last_isSome_advance (by simp [hk₁]))
    rw [ParseState.peek_graft hlt, ParseState.advance_graft hlt, ParseState.peek_graft hlt₁,
      ParseState.advance_graft hlt₁, ParseState.spanFrom_graft hlast]
    exact ⟨hk, .inr ⟨name, x, hk₁, hd, directiveOf_graft hy hg hn hG hgr hle hx, rfl⟩⟩

omit hn hG in
theorem dollarExpr_graft {e : Expr} (hle : n ≤ s'.rest.length) (h : (dollarExpr g).run s = (.ok e, s')) :
    (dollarExpr g).run (s.graft n y) = (.ok e, s'.graft n y) := by
  obtain ⟨hk, hadj, hform⟩ := dollarExpr_ok.1 h
  have hargs {s : ParseState} {es : List Expr} (h : (arguments g).run s = (.ok es, s')) : n < s.rest.length :=
    Nat.lt_of_le_of_lt hle (length_of_arguments hg h)
  have hlast {s : ParseState} {es : List Expr} (h : (arguments g).run s = (.ok es, s')) : s'.last.isSome = true :=
    ParseState.last_isSome_of_lt (advances_run (Alike.advances fun us => Alike.arguments (.refl us) (hg.steady us)) h)
      (length_of_arguments hg h)
  -- what is known of the tokens before the arguments
  have hlt₁ : n < s.advance.rest.length := by
    rcases hform with ⟨hk₁, -, -, a, b, c, ha, -⟩ | ⟨hk₁, a, b, ha, -⟩ | ⟨name, hk₁, ⟨-, -, args, ha, -⟩ | ⟨-, rfl, -⟩⟩
    · exact lt_of_passed hk₁ (by simp) (Nat.le_of_lt (hargs ha))
    · exact hargs ha
    · exact lt_of_passed hk₁ (by simp) (Nat.le_of_lt (hargs ha))
    · exact lt_of_passed hk₁ (by simp) hle
  have hlt := lt_of_passed hk (by simp) (Nat.le_of_lt hlt₁)
  refine dollarExpr_ok.2 ?_
  rw [ParseState.peek_graft hlt, ParseState.advance_graft hlt, ParseState.peek_graft hlt₁,
    ParseState.isAdjacent_graft hlt₁, ParseState.advance_graft hlt₁]
  refine ⟨hk, hadj, ?_⟩
  rcases hform with ⟨hk₁, hk₂, hnext, a, b, c, ha, rfl⟩ | ⟨hk₁, a, b, ha, rfl⟩ |
    ⟨name, hk₁, ⟨hk₂, hadj₂, args, ha, rfl⟩ | ⟨hno, rfl, rfl⟩⟩
  · have hlt₂ : n + 1 < s.advance.rest.length :=
      Nat.lt_of_le_of_lt (hargs ha) (length_advance_lt (by simp [hk₁]))
    refine .inl ⟨hk₁, by rwa [ParseState.kindAt_graft hlt₂], by rwa [ParseState.nextIsAdjacent_graft hlt₂], a, b, c,
      arguments_graft hg hgr hle ha, ?_⟩
    rw [ParseState.spanFrom_graft (hlast ha)]
  · refine .inr (.inl ⟨hk₁, a, b, arguments_graft hg hgr hle ha, ?_⟩)
    rw [ParseState.spanFrom_graft (hlast ha)]
  · have hlt₂ := hargs ha
    refine .inr (.inr ⟨name, hk₁, .inl ⟨by rwa [ParseState.peek_graft hlt₂], by rwa [ParseState.isAdjacent_graft hlt₂],
      args, arguments_graft hg hgr hle ha, ?_⟩⟩)
    rw [ParseState.spanFrom_graft (hlast ha)]
  · refine .inr (.inr ⟨name, hk₁, .inr ⟨?_, rfl, ?_⟩⟩)
    · rintro ⟨hk₂, hadj₂⟩
      have hlt₂ := peek_ne_of_graft hy hk₂ (by simp) (by simp)
      rw [ParseState.peek_graft hlt₂] at hk₂
      rw [ParseState.isAdjacent_graft hlt₂] at hadj₂
      exact hno ⟨hk₂, hadj₂⟩
    · rw [ParseState.spanFrom_graft (ParseState.last_isSome_advance (by simp [hk₁]))]

/-! ### Primary expressions and what follows them -/

omit hy hG hgr in
theorem length_of_primary {e : Expr} (h : (primary g header).run s = (.ok e, s')) :
    s'.rest.length < s.rest.length := by
  have hpassed {k : TokenKind} (hk : s.peek.kind = k) (he : k ≠ .eof) (hnest : Nested s.advance s') :
      s'.rest.length < s.rest.length := Nat.lt_of_le_of_lt hnest.length_le (length_advance_lt (hk ▸ he))
  rcases primary_ok.1 h with ⟨hl, rfl⟩ | ⟨-, h⟩ | ⟨-, h⟩ | ⟨hk, h⟩ | ⟨-, h⟩ | ⟨-, h⟩ | ⟨-, h⟩
  · refine length_advance_lt fun he => ?_
    rw [he] at hl
    cases hl
  · obtain ⟨hk, params, s₁, hp, ⟨-, body, hb, -⟩ | ⟨-, body, hb, -⟩⟩ := lambda_ok.1 h
    · exact hpassed hk (by simp) ((nests_paramList hg hn hp).trans (hn.block hb))
    · exact hpassed hk (by simp) ((nests_paramList hg hn hp).trans (hn.expression header hb))
  · obtain ⟨name, hk, ⟨-, names, hp, -⟩ | ⟨-, -, h⟩ | ⟨-, -, rfl, -⟩⟩ := (nameExpr_ok hg).1 h
    · exact hpassed hk (by simp) (nested_of_pathTail hp)
    · have hadv := advances_run (Alike.advances fun us => Alike.structLiteral? (.refl us) (hg.steady us) _ _ _) h
      exact Nat.lt_of_le_of_lt hadv.length_le (length_advance_lt (by simp [hk]))
    · exact hpassed hk (by simp) (.refl _)
  · obtain ⟨inner, s₁, hi, hk₁, rfl, -⟩ := parenthesized_ok.1 h
    have hclose := length_advance_lt (s := s₁) (by simp [hk₁])
    have hopen := length_advance_lt (s := s) (by simp [hk])
    have hinner := (hn.expression false hi).length_le
    omega
  · exact length_of_arrayLiteral hg h
  · obtain ⟨hk, hform⟩ := hashExpr_ok.1 h
    have hopen := length_advance_lt (s := s) (by simp [hk])
    rcases hform with ⟨-, ha⟩ | ⟨name, x, hk₁, -, hx, -⟩
    · exact Nat.lt_trans (length_of_arrayLiteral hg ha) hopen
    · have hadv := advances_run (Alike.advances fun us => Alike.directiveOf (.refl us) (hg.steady us) x.name) hx
      exact Nat.lt_of_le_of_lt (Nat.le_trans hadv.length_le (Advances.advance _).length_le) hopen
  · obtain ⟨hk, -, hform⟩ := dollarExpr_ok.1 h
    have hopen := length_advance_lt (s := s) (by simp [hk])
    have hnext := (Advances.advance s.advance).length_le
    rcases hform with ⟨-, -, -, a, b, c, ha, -⟩ | ⟨-, a, b, ha, -⟩ | ⟨name, -, ⟨-, -, args, ha, -⟩ | ⟨-, rfl, -⟩⟩
    · have := length_of_arguments hg ha
      omega
    · have := length_of_arguments hg ha
      omega
    · have := length_of_arguments hg ha
      omega
    · omega

theorem primary_graft {e : Expr} (hw : EndsWithin n header s') (h : (primary g header).run s = (.ok e, s')) :
    (primary g false).run (s.graft n y) = (.ok e, s'.graft n y) := by
  have hless := length_of_primary hg hn h
  have hle := hw.length_le
  have hlt := Nat.lt_of_le_of_lt hle hless
  refine primary_ok.2 ?_
  rw [ParseState.peek_graft hlt]
  rcases primary_ok.1 h with ⟨hl, rfl⟩ | ⟨hk, h⟩ | ⟨hk, h⟩ | ⟨hk, h⟩ | ⟨hk, h⟩ | ⟨hk, h⟩ | ⟨hk, h⟩
  · refine .inl ⟨?_, (ParseState.advance_graft hlt).symm⟩
    rwa [ParseState.spanFrom_graft (ParseState.last_isSome_of_lt (.advance s) hless)]
  · exact .inr (.inl ⟨hk, lambda_graft hy hg hn hG hgr hw h⟩)
  · exact .inr (.inr (.inl ⟨hk, nameExpr_graft hy hg hn hG hgr hw h⟩))
  · refine .inr (.inr (.inr (.inl ⟨hk, ?_⟩)))
    obtain ⟨inner, s₁, hi, hk₁, rfl, rfl⟩ := parenthesized_ok.1 h
    have hlt₁ := lt_of_passed hk₁ (by simp) hle
    refine parenthesized_ok.2 ⟨inner, s₁.graft n y, ?_, by rwa [ParseState.peek_graft hlt₁],
      (ParseState.advance_graft hlt₁).symm, ?_⟩
    · rw [ParseState.advance_graft hlt]
      exact hgr.expression (.plain (Nat.le_of_lt hlt₁)) hi
    · rw [ParseState.spanFrom_graft (ParseState.last_isSome_advance (by simp [hk₁]))]
  · exact .inr (.inr (.inr (.inr (.inl ⟨hk, arrayLiteral_graft hy hg hn hG hgr hle h⟩))))
  · exact .inr (.inr (.inr (.inr (.inr (.inl ⟨hk, hashExpr_graft hy hg hn hG hgr hle h⟩)))))
  · exact .inr (.inr (.inr (.inr (.inr (.inr ⟨hk, dollarExpr_graft hy hg hgr hle h⟩)))))

omit hy hn in
theorem suffixStep_graft {start : Nat} {e e' : Expr} (hle : n ≤ s'.rest.length)
    (h : (suffixStep g start e).run s = (.ok (some e'), s')) :
    (suffixStep g start e).run (s.graft n y) = (.ok (some e'), s'.graft n y) := by
  have hless := suffixStep_shrinks hg start e s e' s' h
  have hlt := Nat.lt_of_le_of_lt hle hless
  have hlast := ParseState.last_isSome_of_lt
    (advances_run (Alike.advances fun us => Alike.suffixStep (.refl us) (hg.steady us) start start rfl) h) hless
  refine (suffixStep_some hg).2 ?_
  rw [ParseState.peek_graft hlt, ParseState.isAdjacent_graft hlt, ParseState.advance_graft hlt,
    ParseState.spanFrom_graft hlast]
  rcases (suffixStep_some hg).1 h with ⟨hk, args, ha, rfl⟩ | ⟨hk, hadj, ht, generics, s₁, args, hc, ha, rfl⟩ |
    ⟨hk, name, hk₁, rfl, rfl⟩ | ⟨hk, index, s₁, hi, hk₁, rfl, rfl⟩
  · exact .inl ⟨hk, args, arguments_graft hg hgr hle ha, rfl⟩
  · have hlt₁ := Nat.lt_of_le_of_lt hle (length_of_arguments hg ha)
    obtain ⟨htypes, ho, hk₁⟩ := callTypeArgs_ok.1 hc
    have hcall := callTypeArgs_ok.2
      ⟨innerTypeArgs_graft (y := y) hG hlt₁ htypes, ho, by rwa [ParseState.peek_graft hlt₁]⟩
    exact .inr (.inl ⟨hk, hadj, ht, generics, s₁.graft n y, args, hcall, arguments_graft hg hgr hle ha, rfl⟩)
  · have hlt₁ := lt_of_passed hk₁ (by simp) hle
    refine .inr (.inr (.inl ⟨hk, name, by rwa [ParseState.peek_graft hlt₁], (ParseState.advance_graft hlt₁).symm, rfl⟩))
  · have hlt₁ := lt_of_passed hk₁ (by simp) hle
    exact .inr (.inr (.inr ⟨hk, index, s₁.graft n y, hgr.expression (.plain (Nat.le_of_lt hlt₁)) hi,
      by rwa [ParseState.peek_graft hlt₁], (ParseState.advance_graft hlt₁).symm, rfl⟩))

omit hn hgr in
/-- Where no call, member or subscript follows, none does in another place. -/
theorem suffixStop_graft {start : Nat} {e : Expr} (hle : n ≤ s.rest.length)
    (h : (suffixStep g start e).run s = (.ok none, s')) :
    (suffixStep g start e).run (s.graft n y) = (.ok none, s.graft n y) := by
  obtain ⟨-, hparen, hdot, hbracket, hargs⟩ := (suffixStep_none hg).1 h
  refine (suffixStep_none hg).2 ⟨rfl, peek_graft_ne hy hle hparen (by simp) (by simp),
    peek_graft_ne hy hle hdot (by simp) (by simp), peek_graft_ne hy hle hbracket (by simp) (by simp), ?_⟩
  intro hk hadj ht
  have hlt := peek_ne_of_graft hy hk (by simp) (by simp)
  rw [ParseState.peek_graft hlt] at hk
  rw [ParseState.isAdjacent_graft hlt] at hadj
  exact callTypeArgs_fails_graft hG hy hle (hargs hk hadj ht)

end

end Parser

end ElleFrontEnd
