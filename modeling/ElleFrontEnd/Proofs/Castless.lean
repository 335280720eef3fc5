import ElleFrontEnd.Proofs.HandBuilt
import ElleFrontEnd.Proofs.Lawful
import ElleFrontEnd.Proofs.LeadGrammar

/-!
# Operands in parentheses that are no casts

The printer puts an operand in parentheses where it would bind too loosely.  The grammar takes what stands in
parentheses for the type of a cast if it can be read as one and an operand follows.  Of the operands that are ever put
in parentheses, some can: `a * []` is written like the type of arrays of pointers to `a`.  A tree is `Castless` if no
such operand stands in parentheses before what opens an operand.

That nothing else in parentheses is taken for a cast follows from how a printed tree begins, as it does for the trees
that are read (`Reading`): here the tree itself decides, and not the source it was read from.
-/

namespace ElleFrontEnd

open Fragment

/-! ### Trees without stray casts -/

/-- Whether fragments are a name with stars and empty brackets behind it, as a type is written. -/
def Fragment.LooksLikeType (f : List Fragment) : Prop := ∃ n ks, tokens f = .ident n :: ks ∧ skim ks = []

/-- Whether an operand is not taken for the type of a cast where it is printed by `grouped`, and holds, by `inner`,
nothing that is.  `behind` tells whether what follows opens an operand. -/
def castlessOperand (level : Nat) (openRight behind : Bool) (e : Expr) (inner : Bool → Bool → Prop) : Prop :=
  if e.needsGroup level openRight then
    inner true false ∧ (behind = true → ¬ LooksLikeType (e.layout 0 true))
  else inner openRight behind

/-- Whether the token of an operator opens an operand as well. -/
def Operator.opensOperand (op : Operator) : Bool := Parser.opensOperand true (.operator op)

mutual

/-- Whether nothing that is put in parentheses, where a tree built by hand is printed, is taken for the type of a cast.
`behind` tells whether what follows the tree opens an operand. -/
def Expr.Castless (openRight behind : Bool) : Expr → Prop
  | .binary _ left op right =>
    castlessOperand (operandLevels op.operator).1 false op.operator.opensOperand left (fun o b => left.Castless o b) ∧
      castlessOperand (operandLevels op.operator).2 openRight behind right (fun o b => right.Castless o b)
  | .range _ start stop inclusive =>
    castlessOperand (operandLevels (rangeOperator inclusive)).1 false false start (fun o b => start.Castless o b) ∧
      castlessOperand (operandLevels (rangeOperator inclusive)).2 openRight behind stop (fun o b => stop.Castless o b)
  | .unary _ _ operand => castlessOperand leadingLevel openRight behind operand (fun o b => operand.Castless o b)
  | .cast _ type operand =>
    if type.isNamed && operand.opensAmbiguously then operand.Castless true false
    else castlessOperand leadingLevel openRight behind operand (fun o b => operand.Castless o b)
  | .call _ callee generics args =>
    castlessOperand trailingLevel false generics.isNone callee (fun o b => callee.Castless o b) ∧
      exprListCastless args
  | .member _ object _ => castlessOperand trailingLevel false false object (fun o b => object.Castless o b)
  | .subscript _ object index =>
    castlessOperand trailingLevel false true object (fun o b => object.Castless o b) ∧ index.Castless true false
  | .conditional _ condition consequence alternative =>
    castlessOperand (conditionalLevel + 1) false false condition (fun o b => condition.Castless o b) ∧
      optExprCastless consequence ∧
      castlessOperand conditionalLevel openRight behind alternative (fun o b => alternative.Castless o b)
  | .lambda _ _ body => castlessOperand conditionalLevel openRight behind body (fun o b => body.Castless o b)
  | .paren _ _ | .blockLambda _ _ _ | .ident _ _ | .qualified _ _ | .rawName _ _ | .number _ _ | .str _ _ | .bool _ _
  | .char _ _ => True
  | .array _ _ _ elements => exprListCastless elements
  | .tuple _ first second => first.Castless true false ∧ second.Castless true false
  | .triple _ first second third => first.Castless true false ∧ second.Castless true false ∧ third.Castless true false
  | .structLit _ _ _ fields => fieldInitListCastless fields
  | .directive _ directive => directive.Castless
  | .sigil _ _ args => optExprListCastless args

/-- Whether each expression of a list is free of stray casts. -/
def exprListCastless : List Expr → Prop
  | [] => True
  | e :: es => e.Castless true false ∧ exprListCastless es

/-- Whether an expression that may be left out is free of stray casts. -/
def optExprCastless : Option Expr → Prop
  | none => True
  | some e => e.Castless true false

/-- Whether arguments that may be left out are free of stray casts. -/
def optExprListCastless : Option (List Expr) → Prop
  | none => True
  | some es => exprListCastless es

/-- Whether the value of a field is free of stray casts. -/
def FieldInit.Castless : FieldInit → Prop
  | .mk _ _ value => value.Castless true false

/-- Whether the values of all fields are free of stray casts. -/
def fieldInitListCastless : List FieldInit → Prop
  | [] => True
  | f :: fs => f.Castless ∧ fieldInitListCastless fs

/-- Whether what a directive holds is free of stray casts. -/
def Directive.Castless : Directive → Prop
  | .len value | .free value | .setAllocator value => value.Castless true false
  | .size _ | .ident _ | .env | .resetAllocator => True
  | .alloc _ count => optExprCastless count
  | .realloc pointer _ count => pointer.Castless true false ∧ optExprCastless count

end

/-! ### How a printed tree begins -/

/-- Whether tokens open an operand and begin with nothing that only stands behind expressions. -/
def Heads (ls : List TokenKind) : Prop := ∀ rest, Begins ls (ls ++ rest) rest

namespace Heads

variable {k : TokenKind} {ls ms : List TokenKind}

theorem of_simple (hs : k.isSimple = true) (hn : ∀ n, k ≠ .ident n) (ho : Parser.opensOperand true k = true) :
    Heads (k :: ls) := fun _ => .of_leads (.first (.of_simple hs (.inl rfl))) hn ho

theorem name (n : String) : Heads [.ident n] := by
  refine fun rest => ⟨.first (.of_simple rfl (.inl rfl)), fun m ls hm => ?_, ⟨_, _, rfl, rfl⟩⟩
  obtain ⟨h, rfl⟩ := List.cons.inj hm
  cases h
  exact ⟨rest, rfl, .nil⟩

theorem leads (h : Heads ls) (rest : List TokenKind) : Leads rest ls (ls ++ rest) := (h rest).leads

theorem opens (h : Heads ls) : ∃ k ks, ls = k :: ks ∧ Parser.opensOperand true k = true := (h []).opens

theorem append (h : Heads ls) (h' : ∀ rest, Leads rest ms (ms ++ rest)) : Heads (ls ++ ms) := fun rest => by
  rw [List.append_assoc]
  exact (h _).append (h' rest)

theorem goes_on (h : Heads ls) (hs : k.isSimple = true) : Heads (ls ++ k :: ms) :=
  h.append fun _ => .first (.of_simple hs (.inl rfl))

end Heads

/-- A bracket with something in it begins no run of empty brackets. -/
theorem leads_bracket {k : TokenKind} (hk : k ≠ .punctuation .rBracket) (ls rest : List TokenKind) :
    Leads rest (.punctuation .lBracket :: k :: ls) (.punctuation .lBracket :: k :: ls ++ rest) :=
  .first ⟨.inl rfl, by simp, rfl, fun _ => ⟨⟨_, _, rfl, hk⟩, _, _, rfl, hk⟩⟩

theorem tokens_unarySpace (unary : UnaryOp) (e : Expr) : tokens (unarySpace unary e) = [] := by
  unfold unarySpace
  split
  · split <;> rfl
  · rfl

theorem tokens_calleeSpace (e : Expr) : tokens (calleeSpace e) = [] := by
  unfold calleeSpace
  split <;> rfl

theorem heads_grouped {e : Expr} {depth level : Nat} {openRight : Bool}
    (h : ∀ o, Heads (tokens (e.layout depth o))) :
    Heads (tokens (grouped level openRight e (fun o => e.layout depth o))) := by
  unfold grouped
  split
  · exact .of_simple rfl (by simp) rfl
  · exact h openRight

theorem TypeExpr.tokens_layout (t : TypeExpr) : ∃ k ks, tokens t.layout = k :: ks ∧ k ≠ .punctuation .rBracket := by
  obtain ⟨k, f, hf, hk⟩ := t.layout_cons
  refine ⟨k, tokens f, by rw [hf]; rfl, ?_⟩
  rintro rfl
  simp [opensType] at hk

theorem Directive.layout_cons (depth : Nat) (d : Directive) : ∃ f, d.layout depth = mark .hash :: f := by
  unfold layout
  split <;> exact ⟨_, rfl⟩

/-- A tree begins like an operand. -/
theorem Expr.heads (depth : Nat) : (e : Expr) → e.HandBuilt → e.Lawful → ∀ openRight,
    Heads (tokens (e.layout depth openRight))
  | .binary _ left op right, hb, hl, openRight => by
    simp only [layout, List.append_assoc, tokens_append, List.cons_append, List.nil_append, tokens_space, tokens_token]
    have hleft : Heads (tokens (grouped (operandLevels op.operator).1 false left fun o => left.layout depth o)) :=
      heads_grouped (left.heads depth hb.1 hl.1)
    have hright :
        Heads (tokens (grouped (operandLevels op.operator).2 openRight right fun o => right.layout depth o)) :=
      heads_grouped (right.heads depth hb.2 hl.2)
    -- a star goes on with the run of stars that the left operand may end in
    by_cases hstar : op = .mul
    · subst hstar
      exact hleft.append fun rest => .star (hright.leads rest)
    · refine hleft.goes_on ?_
      cases op <;> first | rfl | exact absurd rfl hstar
  | .range _ start stop inclusive, hb, hl, openRight => by
    simp only [layout, List.append_assoc, tokens_append, List.cons_append, List.nil_append, tokens_token]
    refine (heads_grouped (start.heads depth hb.1 hl.1)).goes_on ?_
    cases inclusive <;> rfl
  | .unary _ op operand, hb, hl, openRight => by
    have hb : operand.HandBuilt := hb
    have hl : operand.Lawful := hl
    simp only [layout, List.cons_append, tokens_append, tokens_token, tokens_unarySpace, List.nil_append]
    by_cases hstar : op = .deref
    · subst hstar
      exact fun rest => .of_leads (.star ((heads_grouped (operand.heads depth hb hl)).leads rest)) (by simp) rfl
    · cases op <;> first | exact absurd rfl hstar | exact .of_simple rfl (by simp) rfl
  | .cast _ _ _, _, _, _ => by
    simp only [layout, parens, List.cons_append, tokens_token]
    exact .of_simple rfl (by simp) rfl
  | .call _ callee generics args, hb, hl, openRight => by
    simp only [layout, List.append_assoc, tokens_append, tokens_calleeSpace, List.nil_append]
    refine Heads.append (heads_grouped (callee.heads depth hb.1 hl.2.2.1)) fun rest => ?_
    cases generics <;> exact .first (.of_simple rfl (.inl rfl))
  | .member _ object _, hb, hl, openRight => by
    have hb : object.HandBuilt := hb
    have hl : object.Lawful := hl
    simp only [layout, tokens_append, tokens_token]
    exact (heads_grouped (object.heads depth hb hl)).goes_on rfl
  | .subscript _ object index, hb, hl, openRight => by
    simp only [layout, List.append_assoc, tokens_append, List.cons_append, List.nil_append, tokens_token]
    obtain ⟨k, ks, hk, ho⟩ := (index.heads depth hb.2 hl.2 true).opens
    refine (heads_grouped (object.heads depth hb.1 hl.1)).append fun rest => ?_
    rw [hk, List.cons_append]
    exact leads_bracket (Parser.ne_rBracket ho) _ rest
  | .conditional _ condition none _, hb, hl, openRight
  | .conditional _ condition (some _) _, hb, hl, openRight => by
    simp only [layout, List.append_assoc, tokens_append, List.cons_append, List.nil_append, tokens_space, tokens_token]
    exact (heads_grouped (condition.heads depth hb.1 hl.1)).goes_on rfl
  | .paren _ _, hb, _, _ | .blockLambda _ _ _, hb, _, _ => absurd hb id
  | .ident _ n, _, _, _ => by
    rw [layout]
    exact .name n
  | .qualified _ path, _, hl, _ => by
    obtain ⟨n, m, names, rfl⟩ := exists_segments hl
    rw [layout]
    exact (Heads.name n).goes_on (k := .punctuation .colonColon) rfl
  | .rawName _ _, _, _, _ | .number _ _, _, _, _ | .str _ _, _, _, _ | .bool _ _, _, _, _ | .char _ _, _, _, _
  | .tuple _ _ _, _, _, _ | .triple _ _ _ _, _, _, _ | .lambda _ _ _, _, _, _ | .sigil _ _ none, _, _, _
  | .sigil _ _ (some _), _, _, _ => by
    simp only [layout, List.cons_append, tokens_token]
    exact .of_simple rfl (by simp) rfl
  | .array _ _ true _, _, _, _ => by
    simp only [layout, if_true, List.cons_append, tokens_token]
    exact .of_simple rfl (by simp) rfl
  | .array _ none false [], _, _, _ => by
    simp only [layout, exprListLayout, commas_nil]
    exact fun rest => .of_leads (.brackets .nil) (by simp) rfl
  | .array _ none false (e :: es), hb, hl, openRight => by
    obtain ⟨k, ks, hk, ho⟩ := (e.heads depth hb.1 hl.2.1 true).opens
    obtain ⟨f, hf⟩ := commas_cons (e.layout depth true) (exprListLayout depth es)
    rw [Parser.array_layout]
    simp only [Bool.false_eq_true, if_false, List.nil_append, tokens_token, exprListLayout, hf, List.append_assoc,
      tokens_append, hk, List.cons_append]
    exact fun rest => .of_leads (leads_bracket (Parser.ne_rBracket ho) _ rest) (by simp) rfl
  | .array _ (some t) false _, _, _, openRight => by
    obtain ⟨k, ks, hk, hne⟩ := t.tokens_layout
    rw [Parser.array_layout]
    simp only [Bool.false_eq_true, if_false, List.nil_append, tokens_token, List.append_assoc, tokens_append, hk,
      List.cons_append]
    exact fun rest => .of_leads (leads_bracket hne _ rest) (by simp) rfl
  | .structLit span n generics fields, _, _, _ => by
    simp only [layout, List.cons_append, tokens_token, tokens_append]
    refine (Heads.name n).append fun rest => ?_
    cases generics <;> cases fields <;> exact .first (.of_simple rfl (.inl rfl))
  | .directive _ d, _, _, _ => by
    obtain ⟨f, hf⟩ := d.layout_cons depth
    rw [layout, hf]
    exact .of_simple rfl (by simp) rfl

namespace Parser

variable {u u' : ParseState} {room : Nat} {c f : List Fragment}

/-- At the head of fragments, whatever follows them, a trial with a type ends at a place that can be told from the
tokens.  Behind a bare name, type arguments must not follow. -/
def UntypedHead (room : Nat) (c : List Fragment) : Prop :=
  ∀ (f : List Fragment) (limit room' angles : Nat) (u u' : ParseState) (t : TypeExpr), room ≤ room' →
    (∀ n, c = [ofName n] → ¬ touchesWith (.operator .lt) f) → Faces u (c ++ f) →
    (typeExpr limit room' angles).run u = (.ok t, u') → TrialEnd (c ++ f) t u'

namespace UntypedHead

theorem mono (h : UntypedHead room c) {room' : Nat} (hle : room ≤ room') : UntypedHead room' c :=
  fun f limit room₁ angles u u' t hr => h f limit room₁ angles u u' t (Nat.le_trans hle hr)

theorem extend (h : UntypedHead room c) {rest : List Fragment}
    (hr : ∀ n, c = [ofName n] → ∃ a rest', rest = a :: rest' ∧ a ≠ op .lt) : UntypedHead room (c ++ rest) := by
  intro f limit room' angles u u' t hle _ hu hrun
  rw [List.append_assoc] at hu ⊢
  refine h _ limit room' angles u u' t hle (fun n hn => ?_) hu hrun
  obtain ⟨a, rest', rfl, hne⟩ := hr n hn
  exact not_touchesWith_cons hne

theorem of_token {k : TokenKind} (hk : opensType k = false) (hg : k ≠ .operator .gt) (he : k ≠ .eof)
    (rest : List Fragment) : UntypedHead room (.token k :: rest) := by
  intro f limit room' angles u u' t _ _ hu hrun
  have := typeExpr_opens hrun
  rw [(hu.token hg he).1, hk] at this
  exact absurd this (by simp)

theorem name (n : String) : UntypedHead room [ofName n] := by
  intro f limit room' angles u u' t _ hlt hu hrun
  obtain ⟨inner, rfl, hbody⟩ := typeExpr_ok.1 hrun
  exact TrialEnd.of_name hu (hlt n rfl) hbody

/-- Type arguments behind a name, and then a parenthesis or a brace. -/
theorem generic (n : String) {args : List TypeExpr} (hne : args ≠ []) (hw : typeListWellFormed args)
    (hr : typeListHeight 0 args + 1 ≤ room) {rest : List Fragment}
    (hrest : ∀ f, next (rest ++ f) = .punctuation .lParen ∨ next (rest ++ f) = .punctuation .lBrace) :
    UntypedHead room (ofName n :: (angles (commas (typeListLayout args)) ++ rest)) := by
  intro f limit room' angles u u' t hle _ hu hrun
  rw [List.cons_append, List.append_assoc] at hu
  have hk := peek_of_generic hne hw (Nat.le_trans hr hle) (hrest f) hu hrun
  rcases hrest f with h | h
  · exact .inl (hk.trans h)
  · exact .inr (.inl (hk.trans h))

/-- What stands in parentheses is no pair of types. -/
theorem parens (h : UntypedHead room c) (hc : Heads (tokens c)) : UntypedHead (room + 1) (parens c) := by
  intro f limit room' angles u u' t hle _ hu hrun
  exfalso
  rw [Fragment.parens, List.cons_append, List.cons_append, List.append_assoc] at hu
  refine no_pairType hu (fun inner first v hr hfirst hcomma => ?_) hrun
  have hend := h _ limit inner angles _ _ _ (by omega) (fun _ _ => by simp [touchesWith]) hu.mark.2.faces hfirst
  obtain ⟨_, _, -, -, -, ⟨ms, hms⟩, -⟩ := hend.divided (hc []) (by simp [hcomma, divides])
  simp [hcomma, skim] at hms

theorem grouped {e : Expr} {depth level : Nat} {openRight : Bool}
    (h : ∀ o, UntypedHead room (e.layout depth o)) (hc : ∀ o, Heads (tokens (e.layout depth o))) :
    UntypedHead (room + 1) (grouped level openRight e (fun o => e.layout depth o)) := by
  unfold ElleFrontEnd.grouped
  split
  · exact (h true).parens (hc true)
  · exact (h openRight).mono (Nat.le_succ _)

/-- An operand with something behind it that is no argument list. -/
theorem operand {e : Expr} {depth level n : Nat} {openRight : Bool} (hb : e.HandBuilt) (hl : e.Lawful)
    (h : ∀ o, UntypedHead (2 * e.height 1) (e.layout depth o)) (hn : e.height 1 + 1 ≤ n) {rest : List Fragment}
    (hr : ∃ a rest', rest = a :: rest' ∧ a ≠ op .lt) :
    UntypedHead (2 * n) (ElleFrontEnd.grouped level openRight e (fun o => e.layout depth o) ++ rest) :=
  ((UntypedHead.grouped h (e.heads depth hb hl)).extend fun _ _ => hr).mono (by omega)

end UntypedHead

end Parser

/-- What looks like a type at the head of a tree is a name with stars and empty brackets behind it. -/
theorem Expr.untypedHead (depth : Nat) : (e : Expr) → e.HandBuilt → e.Lawful → ∀ openRight,
    Parser.UntypedHead (2 * e.height 1) (e.layout depth openRight)
  | .binary _ left op right, hb, hl, openRight => by
    simp only [layout, List.append_assoc]
    refine .operand hb.1 hl.1 (left.untypedHead depth hb.1 hl.1) (by simp only [height]; omega) ?_
    exact ⟨space, _, rfl, by simp⟩
  | .range _ start stop inclusive, hb, hl, openRight => by
    simp only [layout, List.append_assoc]
    refine .operand hb.1 hl.1 (start.untypedHead depth hb.1 hl.1) (by simp only [height]; omega) ?_
    exact ⟨_, _, rfl, by cases inclusive <;> simp [rangeOperator]⟩
  | .unary _ op operand, _, _, openRight => by
    simp only [layout, List.cons_append]
    exact .of_token rfl (by cases op <;> simp [UnaryOp.operator]) (by simp) _
  | .cast _ type operand, hb, hl, openRight => by
    intro f limit room' angles u u' t hle _ hu hrun
    have hheight : type.height 0 ≤ type.height 1 := type.height_zero_le
    simp only [height] at hle
    simp only [layout, parens, List.append_assoc, List.cons_append, List.nil_append] at hu
    exact absurd (Parser.no_pairType_cast hl.1 (by omega) hu hrun) id
  | .call _ callee none args, hb, hl, openRight => by
    simp only [layout, List.append_assoc]
    refine .operand hb.1 hl.2.2.1 (callee.untypedHead depth hb.1 hl.2.2.1) (by simp only [height]; omega) ?_
    unfold calleeSpace
    split <;> exact ⟨_, _, rfl, by simp⟩
  | .call _ callee (some generics) args, hb, hl, openRight => by
    obtain ⟨hne, hw⟩ := hl.2.1 generics rfl
    have htake := hl.1.takesGenerics rfl
    have hheight : typeListHeight 0 generics ≤ typeListHeight 1 generics := typeListHeight_zero_le generics
    have hcallee := callee.untypedHead depth hb.1 hl.2.2.1
    have hheads := callee.heads depth hb.1 hl.2.2.1
    simp only [layout, List.append_assoc]
    -- what takes type arguments and is no bare name is printed as more than a name
    have hlonger (h : ∀ n, (grouped trailingLevel false callee fun o => callee.layout depth o) ≠ [ofName n])
        (rest : List Fragment) : Parser.UntypedHead (2 * (callee.height 1 + 1))
          ((grouped trailingLevel false callee fun o => callee.layout depth o) ++ rest) :=
      ((Parser.UntypedHead.grouped hcallee hheads).extend fun n hn => absurd hn (h n)).mono (by omega)
    cases callee with
    | ident _ n =>
      exact (Parser.UntypedHead.generic n hne hw (Nat.le_refl _) fun f => .inl rfl).mono
        (by simp only [height, optHeight]; omega)
    | qualified _ path =>
      obtain ⟨n, m, names, rfl⟩ := exists_segments hl.2.2.1
      refine (hlonger (fun k h => ?_) _).mono (by simp only [height]; omega)
      simp [grouped, needsGroup, level, endsInBody, layout, separated, trailingLevel, primaryLevel] at h
    | member _ object m =>
      refine (hlonger (fun k h => ?_) _).mono (by simp only [height]; omega)
      have := congrArg List.length h
      simp [grouped, needsGroup, level, endsInBody, layout, trailingLevel] at this
    | _ => simp [takesGenerics] at htake
  | .member _ object _, hb, hl, openRight => by
    have hb : object.HandBuilt := hb
    have hl : object.Lawful := hl
    simp only [layout]
    exact .operand hb hl (object.untypedHead depth hb hl) (by simp only [height]; omega) ⟨_, _, rfl, by simp⟩
  | .subscript _ object index, hb, hl, openRight => by
    simp only [layout, List.append_assoc]
    refine .operand hb.1 hl.1 (object.untypedHead depth hb.1 hl.1) (by simp only [height]; omega) ?_
    exact ⟨_, _, rfl, by simp⟩
  | .conditional _ condition none _, hb, hl, openRight
  | .conditional _ condition (some _) _, hb, hl, openRight => by
    simp only [layout, List.append_assoc]
    refine .operand hb.1 hl.1 (condition.untypedHead depth hb.1 hl.1) (by simp only [height]; omega) ?_
    exact ⟨space, _, rfl, by simp⟩
  | .paren _ _, hb, _, _ | .blockLambda _ _ _, hb, _, _ => absurd hb id
  | .ident _ n, _, _, _ => by
    rw [layout]
    exact .name n
  | .qualified _ path, _, hl, _ => by
    obtain ⟨n, m, names, rfl⟩ := exists_segments hl
    rw [layout]
    exact (Parser.UntypedHead.name n).extend fun _ _ => ⟨mark .colonColon, _, rfl, by simp⟩
  | .rawName _ _, _, _, _ | .number _ _, _, _, _ | .str _ _, _, _, _ | .bool _ _, _, _, _ | .char _ _, _, _, _
  | .tuple _ _ _, _, _, _ | .triple _ _ _ _, _, _, _ | .sigil _ _ none, _, _, _ | .sigil _ _ (some _), _, _, _ => by
    simp only [layout, List.cons_append]
    exact .of_token rfl (by simp) (by simp) _
  | .array _ _ isStatic _, _, _, _ => by
    rw [Parser.array_layout]
    cases isStatic <;> exact .of_token rfl (by simp) (by simp) _
  | .structLit span n generics fields, _, hl, _ => by
    simp only [layout, List.cons_append]
    have hheight (args : List TypeExpr) : typeListHeight 0 args ≤ typeListHeight 1 args := typeListHeight_zero_le args
    cases generics with
    | none =>
      refine (Parser.UntypedHead.name n).extend fun _ _ => ?_
      cases fields <;> exact ⟨space, _, rfl, by simp⟩
    | some args =>
      obtain ⟨hne, hw⟩ := hl.1 args rfl
      refine (Parser.UntypedHead.generic n hne hw (Nat.le_refl _) fun f => ?_).mono
        (by have := hheight args; simp only [height, optHeight]; omega)
      cases fields <;> exact .inr rfl
  | .lambda _ params body, _, _, _ => by
    intro f limit room' angles u u' t _ _ hu hrun
    simp only [layout, ParamList.layout, parens, List.append_assoc, List.cons_append, List.nil_append] at hu
    exact .inl (Parser.peek_of_fn hu hrun)
  | .directive _ d, _, _, _ => by
    obtain ⟨f, hf⟩ := d.layout_cons depth
    rw [layout, hf]
    exact .of_token rfl (by simp) (by simp) _

/-! ### Parentheses that are no casts -/

theorem Parser.opensOperand_mono {even : Bool} {k : TokenKind} (h : opensOperand even k = true) :
    opensOperand true k = true := by
  cases even
  · unfold opensOperand at h ⊢
    split at h <;> first | rfl | exact absurd h (by simp)
  · exact h

/-- What stands in parentheses is no cast, unless it looks like a type and what follows opens an operand. -/
theorem Parser.noCast_of_head {G : Inner} {e : Expr} {limit room : Nat} {u : ParseState} {f : List Fragment}
    (hG : G.type = typeExpr limit room) (hb : e.HandBuilt) (hl : e.Lawful) (hr : 2 * e.height 1 ≤ room)
    (hcast : opensOperand true (next f) = true → ¬ LooksLikeType (e.layout 0 true))
    (hu : Faces u.advance (e.layout 0 true ++ mark .rParen :: f)) : NoCast G u := by
  rcases hrun : (castType G).run u.advance with ⟨err | t, v⟩
  · exact .inl ⟨err, v, hrun⟩
  refine .inr ⟨t, v, hrun, ?_⟩
  obtain ⟨v, ht, hk, rfl⟩ := castType_ok.1 hrun
  rw [hG] at ht
  have hend := e.untypedHead 0 hb hl true _ limit room 0 _ _ _ hr (fun _ _ => by simp [touchesWith]) hu ht
  obtain ⟨n, ls, htok, hskim, -, -, hpeek⟩ := hend.enclosed (e.heads 0 hb hl true []) hk
  rcases hpeek with hp | hp
  · by_contra hopen
    rw [hp, Bool.not_eq_false] at hopen
    exact hcast (opensOperand_mono hopen) ⟨n, ls, htok, hskim⟩
  · rw [hp]
    rfl

/-- An operand that does not begin with an operator that could stand between two operands, or with a bracket, is taken
for the operand of a cast also behind a bare name. -/
theorem Expr.opensOperand_of_plain (depth : Nat) : (e : Expr) → e.HandBuilt → e.Lawful → leadingLevel ≤ e.level →
    e.opensAmbiguously = false → ∀ openRight, ∃ k ks, tokens (e.layout depth openRight) = k :: ks ∧
      Parser.opensOperand false k = true
  | .unary _ op operand, _, _, _, ha, openRight => by
    refine ⟨_, _, by simp only [layout, List.cons_append, tokens_token]; rfl, ?_⟩
    cases op <;> first | rfl | exact absurd ha (by simp [opensAmbiguously])
  | .call _ callee _ _, hb, hl, _, ha, openRight => by
    obtain ⟨k, ks, hk, ho⟩ := opens_grouped callee fun hlevel => callee.opensOperand_of_plain depth hb.1 hl.2.2.1
      (Nat.le_of_succ_le hlevel) (by simpa [opensAmbiguously, hlevel] using ha)
    exact ⟨k, _, by simp only [layout, List.append_assoc, tokens_append, hk, List.cons_append]; rfl, ho⟩
  | .member _ object _, hb, hl, _, ha, openRight => by
    obtain ⟨k, ks, hk, ho⟩ := opens_grouped object fun hlevel => object.opensOperand_of_plain depth hb hl
      (Nat.le_of_succ_le hlevel) (by simpa [opensAmbiguously, hlevel] using ha)
    exact ⟨k, _, by simp only [layout, tokens_append, hk, List.cons_append]; rfl, ho⟩
  | .subscript _ object _, hb, hl, _, ha, openRight => by
    obtain ⟨k, ks, hk, ho⟩ := opens_grouped object fun hlevel => object.opensOperand_of_plain depth hb.1 hl.1
      (Nat.le_of_succ_le hlevel) (by simpa [opensAmbiguously, hlevel] using ha)
    exact ⟨k, _, by simp only [layout, List.append_assoc, tokens_append, hk, List.cons_append]; rfl, ho⟩
  | .array _ _ isStatic _, _, _, _, ha, openRight => by
    obtain rfl : isStatic = true := by simpa [opensAmbiguously] using ha
    exact ⟨_, _, by simp only [layout]; rfl, rfl⟩
  | .qualified _ path, _, hl, _, _, openRight => by
    obtain ⟨n, m, names, rfl⟩ := exists_segments hl
    exact ⟨.ident n, _, by simp only [layout]; rfl, rfl⟩
  | .directive _ d, _, _, _, _, openRight => by
    obtain ⟨f, hf⟩ := d.layout_cons depth
    exact ⟨_, _, by rw [layout, hf]; rfl, rfl⟩
  | .cast _ _ _, _, _, _, _, _ | .lambda _ _ _, _, _, _, _, _ | .ident _ _, _, _, _, _, _ | .rawName _ _, _, _, _, _, _
  | .number _ _, _, _, _, _, _ | .str _ _, _, _, _, _, _ | .bool _ _, _, _, _, _, _ | .char _ _, _, _, _, _, _
  | .tuple _ _ _, _, _, _, _, _ | .triple _ _ _ _, _, _, _, _, _ | .structLit _ _ _ _, _, _, _, _, _
  | .sigil _ _ none, _, _, _, _, _ | .sigil _ _ (some _), _, _, _, _, _ => ⟨_, _, by simp only [layout]; rfl, rfl⟩
  | .binary _ _ op _, _, _, h, _, _ => absurd h (Nat.not_le_of_lt op.operator.precedence_lt)
  | .range _ _ _ inclusive, _, _, h, _, _ => absurd h (Nat.not_le_of_lt (rangeOperator inclusive).precedence_lt)
  | .conditional _ _ _ _, _, _, h, _, _ => absurd h (Nat.not_le_of_lt conditionalLevel_lt)
  | .paren _ _, hb, _, _, _, _ | .blockLambda _ _ _, hb, _, _, _, _ => absurd hb id
where
  opens_grouped (e : Expr) {depth : Nat} (h : trailingLevel ≤ e.level → ∀ o, ∃ k ks,
      tokens (e.layout depth o) = k :: ks ∧ Parser.opensOperand false k = true) :
      ∃ k ks, tokens (grouped trailingLevel false e fun o => e.layout depth o) = k :: ks ∧
        Parser.opensOperand false k = true := by
    unfold grouped
    split
    · exact ⟨_, _, rfl, rfl⟩
    · rename_i hn
      refine h ?_ false
      simp only [needsGroup, Bool.or_eq_true, decide_eq_true_eq, not_or] at hn
      omega

end ElleFrontEnd
