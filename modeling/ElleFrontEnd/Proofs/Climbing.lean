import ElleFrontEnd.Proofs.Grouping

/-!
# Chains of operators between names

The parser reads a chain by climbing: an operator takes for its right operand a chain of tighter operators, and what
has been read so far is its left operand.  The loop keeps that the left operand binds tightly enough for whatever
operator comes next (`Climbed.fits`).  So names with operators between are read up to the end of the chain, and make
the one tree that groups them as the operators demand (`expression_climbs`).

Each right operand is read one nesting level further in, so that a chain needs at most one level for each operator.
-/

namespace ElleFrontEnd

/-- What goes on with a chain behind the name `prev`: a number of operators with a name behind each.  A `<` that
touches the name before it could open type arguments, and is left out. -/
inductive OperatorTail : (prev : Token) → Nat → List Token → Prop
  | nil (prev : Token) : OperatorTail prev 0 []
  | cons {prev u t : Token} {op : Operator} {name : String} {n : Nat} {ts : List Token} : u.kind = .operator op →
    op.fixity = .between → (op = .lt → prev.isAdjacentTo u = false) → t.kind = .ident name → OperatorTail t n ts →
    OperatorTail prev (n + 1) (u :: t :: ts)

/-- Whether `P` holds of the operator that comes first, if there is one. -/
def FirstOperator (P : Operator → Prop) (ts : List Token) : Prop :=
  ∀ u ∈ ts.head?, ∀ op, u.kind = .operator op → P op

/-- Whether the operator that comes first, if there is one, is below a level. -/
abbrev StopsBelow (level : Nat) : List Token → Prop :=
  FirstOperator fun op => op.fixity = .between ∧ op.precedence < level

theorem FirstOperator.cons {P : Operator → Prop} {u : Token} {ts : List Token} {op : Operator}
    (hk : u.kind = .operator op) (h : P op) : FirstOperator P (u :: ts) := by
  intro v hv op' hop
  obtain rfl : u = v := by simpa using hv
  obtain rfl : op = op' := TokenKind.operator.inj (hk.symm.trans hop)
  exact h

theorem FirstOperator.of_cons {P : Operator → Prop} {u : Token} {ts : List Token} {op : Operator}
    (h : FirstOperator P (u :: ts)) (hk : u.kind = .operator op) : P op := h u rfl op hk

/-- The state in which `prev` was read last and `ts` come next. -/
def ParseState.past (s : ParseState) (prev : Token) (ts : List Token) : ParseState :=
  { s with last := some prev, rest := ts }

theorem ParseState.advance_eq_past {s : ParseState} {t : Token} {ts : List Token} (h : s.rest = t :: ts)
    (ht : t.kind ≠ .eof) : s.advance = s.past t ts := ParseState.advance_cons h ht

namespace Parser

theorem isNode_of_joined? {op : Operator} {left right e : Expr} (h : joined? op left right = some e) :
    Expr.IsNode op left right e := by
  unfold joined? at h
  split at h
  · cases h
    exact .range _ rfl
  · cases h
    exact .range _ rfl
  · obtain ⟨binary, hb, rfl⟩ := Option.map_eq_some_iff.1 h
    exact .binary _ (by simpa using List.find?_some hb)

variable {g : Inner} {header : Bool} {s : ParseState} {t : Token} {name : String} {stop : List Token}

/-- A name is an operand as it is, where an operator or a semicolon follows. -/
theorem unaryBody_name (header : Bool) (hg : g.Settled) {ts : List Token} (ht : t.kind = .ident name)
    (hs : s.rest = t :: ts)
    (hnext : (∃ op, (s.past t ts).peek.kind = .operator op) ∨ (s.past t ts).peek.kind = .punctuation .semicolon)
    (hlt : ¬ ((s.past t ts).peek.kind = .operator .lt ∧ (s.past t ts).isAdjacent = true)) :
    ∃ span, (unaryBody g header).run s = (.ok (.ident span name), s.past t ts) := by
  have hk : s.peek.kind = .ident name := by rw [ParseState.peek_cons hs, ht]
  have hadvance : s.advance = s.past t ts := ParseState.advance_eq_past hs (by simp [ht])
  -- nothing comes next that goes on with a name
  have hmark {mark : Punctuation} (hm : mark ≠ .semicolon) : (s.past t ts).peek.kind ≠ .punctuation mark := by
    intro h
    rcases hnext with ⟨op, hop⟩ | hsemi
    · exact absurd (h.symm.trans hop) (by simp)
    · exact hm (TokenKind.punctuation.inj (h.symm.trans hsemi))
  have hbody : NoBody g (s.past t ts) :=
    .inr ⟨none, _, (structTypeArgs_some hg).2 (.inr ⟨hlt, rfl, rfl⟩), fun h => hmark (by simp) h.1⟩
  have hname : (nameExpr g header).run s = (.ok (.ident (s.advance.spanFrom s.peek.span.start) name), s.advance) :=
    (nameExpr_ok hg).2 ⟨name, hk, .inr (.inr ⟨hadvance ▸ hmark (by simp), .inr (hadvance ▸ hbody), rfl, rfl⟩)⟩
  have hsuffix {start : Nat} {e : Expr} :
      (suffixStep g start e).run (s.past t ts) = (.ok none, s.past t ts) :=
    (suffixStep_none hg).2 ⟨rfl, hmark (by simp), hmark (by simp), hmark (by simp),
      fun h ha => absurd ⟨h, ha⟩ hlt⟩
  refine ⟨s.advance.spanFrom s.peek.span.start, (unaryBody_ok hg).2 (.inr (.inr (.inr ⟨?_, ?_, ?_⟩)))⟩
  · intro h
    exact absurd (hk.symm.trans h) (by simp)
  · intro op h
    exact absurd (hk.symm.trans h) (by simp)
  · rw [← hadvance] at hsuffix ⊢
    exact (operandExpr_ok hg).2 ⟨_, _, primary_ok.2 (.inr (.inr (.inl ⟨⟨name, hk⟩, hname⟩))), .stop hsuffix⟩

/-- What has been read of a chain of operators of at least a level: a tree `e` that shows the tokens `ks`, with `tail`
still to come. -/
structure Climbed (level : Nat) (ks : List TokenKind) (e : Expr) (tail : List Token) : Prop where
  inOrder : e.InOrder ks
  grouped : e.Grouped
  level_le : level ≤ e.level
  /-- the tree may stand to the left of the next operator, if the chain goes on with it -/
  fits : FirstOperator (fun op => level ≤ op.precedence → (operandLevels op).1 ≤ e.level) tail

theorem Climbed.ident {level : Nat} (hl : level ≤ leadingLevel) (span : Span) (name : String) (tail : List Token) :
    Climbed level [.ident name] (.ident span name) tail where
  inOrder := .name span name
  grouped := trivial
  level_le := Nat.le_trans hl (by show leadingLevel ≤ primaryLevel; decide)
  fits _ _ op _ _ := Nat.le_trans (operandLevels_fst_le op) (by show leadingLevel ≤ primaryLevel; decide)

/-- One more operator, with a right operand that ends before the next operator of its level. -/
theorem Climbed.node {level : Nat} {op : Operator} {ks ks' : List TokenKind} {left right e : Expr} {u : Token}
    {ts tail : List Token} (hleft : Climbed level ks left (u :: ts)) (hu : u.kind = .operator op)
    (hl : level ≤ op.precedence) (hright : Climbed (rightLevel op.precedence op.associativity) ks' right tail)
    (htail : StopsBelow (rightLevel op.precedence op.associativity) tail)
    (he : joined? op left right = some e) : Climbed level (ks ++ .operator op :: ks') e tail := by
  have hnode := isNode_of_joined? he
  have hfits : (operandLevels op).1 ≤ left.level := hleft.fits.of_cons hu hl
  have hlevel : (operandLevels op).2 ≤ right.level := by
    rw [operandLevels_snd]
    exact hright.level_le
  refine ⟨.node hnode hleft.inOrder hright.inOrder, ?_, ?_, ?_⟩
  · exact hnode.grouped_iff.2 ⟨hfits, hlevel, hleft.grouped, hright.grouped⟩
  · rw [hnode.level_eq]
    exact hl
  · intro v hv op' hop _
    obtain ⟨hf, hlt⟩ := htail v hv op' hop
    rw [hnode.level_eq]
    exact operandLevels_fst_of_lt hf hlt

/-- Whether a semicolon ends the chain. -/
def EndsChain (stop : List Token) : Prop := ∃ semi rest, stop = semi :: rest ∧ semi.kind = .punctuation .semicolon

/-- Whether `Reaches` holds of a tree and a state up to which the operators of `tail` of at least a level are read,
behind what shows `ks`.  The tail has `k` operators, and `stop` follows it. -/
def ReadsUpTo (level : Nat) (ks : List TokenKind) (k : Nat) (tail stop : List Token) (s : ParseState)
    (Reaches : Expr → ParseState → Prop) : Prop :=
  ∃ e z m us vs, Reaches e (s.past z (vs ++ stop)) ∧ tail = us ++ vs ∧ m ≤ k ∧ OperatorTail z m vs ∧
    StopsBelow level vs ∧ Climbed level (ks ++ us.map Token.kind) e vs

/-- Whether a parser reads a name and, of at most `n` operators that go on with the chain, those of at least a level. -/
def Climbs (p : Parser Expr) (stop : List Token) (n level : Nat) : Prop :=
  ∀ {s : ParseState} {t : Token} {name : String} {k : Nat} {tail : List Token}, k ≤ n → t.kind = .ident name →
    OperatorTail t k tail → s.rest = t :: (tail ++ stop) →
    ReadsUpTo level [.ident name] k tail stop s fun e s' => p.run s = (.ok e, s')

/-- Whether the right operand of any operator is read out of a chain of at most `n` operators. -/
def ReadsOperands (g : Inner) (header : Bool) (stop : List Token) (n : Nat) : Prop :=
  ∀ op : Operator, Climbs (g.chain header (rightLevel op.precedence op.associativity)) stop n
    (rightLevel op.precedence op.associativity)

/-- The operators of at least a level that go on with a chain are read, where right operands are. -/
theorem grows_chainStep {level n k : Nat} {tail : List Token} {prev : Token} {left : Expr} {ks : List TokenKind}
    (hstop : EndsChain stop) (hoperands : n ≠ 0 → ReadsOperands g header stop (n - 1)) (hk : k ≤ n)
    (htail : OperatorTail prev k tail) (hleft : Climbed level ks left tail) :
    ReadsUpTo level ks k tail stop s fun e s' =>
      Grows (chainStep g header level) left (s.past prev (tail ++ stop)) e s' := by
  -- induction on the number of operators to come; a right operand takes any number of them
  induction k using Nat.strongRecOn generalizing tail prev left ks with
  | ind k ih =>
    cases htail with
    | nil =>
      obtain ⟨semi, rest, rfl, hsemi⟩ := hstop
      refine ⟨left, prev, 0, [], [], .stop (chainStep_none.2 ⟨rfl, ?_⟩), rfl, Nat.le_refl _, .nil prev, ?_, ?_⟩
      · intro op hop
        exact absurd (hsemi.symm.trans hop) (by simp)
      · simp [FirstOperator]
      · simpa using hleft
    | @cons _ u t op name m ts hu hf hlt ht hts =>
      by_cases hl : level ≤ op.precedence
      · have hpeek : (s.past prev (u :: t :: ts ++ stop)).peek = u := rfl
        have hadvance : (s.past prev (u :: t :: ts ++ stop)).advance = s.past u (t :: (ts ++ stop)) :=
          ParseState.advance_eq_past rfl (by simp [hu])
        obtain ⟨right, z, m', us, vs, hrun, hsplit, hm', hvs, hfirst, hright⟩ :=
          hoperands (by omega) op (s := s.past u (t :: (ts ++ stop))) (by omega) ht hts rfl
        obtain ⟨e, he⟩ := Option.isSome_iff_exists.1 (joined?_isSome hf left right)
        have hnext := hleft.node hu hl hright hfirst he
        obtain ⟨e', z', m'', us', vs', hgrows, hsplit', hm'', hvs', hfirst', hclimbed⟩ :=
          ih m' (by omega) (by omega) hvs hnext
        refine ⟨e', z', m'', u :: t :: (us ++ us'), vs', .next (chainStep_some.2 ⟨op, right, ?_, hf, hl, ?_, ?_, he⟩)
          hgrows, ?_, by omega, hvs', hfirst', ?_⟩
        · rw [hpeek, hu]
        · rw [hadvance]
          show opensOperand true t.kind = true
          rw [ht]
          rfl
        · rw [hadvance]
          exact hrun
        · rw [hsplit, hsplit']
          simp
        · simpa [hu, ht] using hclimbed
      · have hdeclines : StopsBelow level (u :: t :: ts) := .cons hu ⟨hf, Nat.lt_of_not_le hl⟩
        refine ⟨left, prev, m + 1, [], u :: t :: ts, .stop (chainStep_none.2 ⟨rfl, ?_⟩), rfl, Nat.le_refl _,
          .cons hu hf hlt ht hts, hdeclines, by simpa using hleft⟩
        intro op' hop' _
        exact (hdeclines u rfl op' hop').2

/-- What follows a name in a chain is an operator or the end, and opens no type arguments. -/
theorem past_name {k : Nat} {tail : List Token} (hstop : EndsChain stop) (htail : OperatorTail t k tail) :
    ((∃ op, (s.past t (tail ++ stop)).peek.kind = .operator op) ∨
      (s.past t (tail ++ stop)).peek.kind = .punctuation .semicolon) ∧
    ¬ ((s.past t (tail ++ stop)).peek.kind = .operator .lt ∧ (s.past t (tail ++ stop)).isAdjacent = true) := by
  cases htail with
  | nil =>
    obtain ⟨semi, rest, rfl, hsemi⟩ := hstop
    refine ⟨.inr hsemi, fun h => ?_⟩
    exact absurd (hsemi.symm.trans h.1) (by simp)
  | @cons _ u _ op _ _ _ hu _ hlt _ _ =>
    refine ⟨.inl ⟨op, hu⟩, fun ⟨hk, hadjacent⟩ => ?_⟩
    have hop : op = .lt := TokenKind.operator.inj (hu.symm.trans hk)
    exact absurd hadjacent (Bool.eq_false_iff.1 (hlt hop))

/-- A chain is read where the right operands of its operators are. -/
theorem climbs_of_chain (hg : g.Settled) {level n : Nat} (hl : level ≤ leadingLevel) (hstop : EndsChain stop)
    (hoperands : n ≠ 0 → ReadsOperands g header stop (n - 1)) : Climbs (chainBody g header level) stop n level := by
  intro s t name k tail hk ht htail hs
  obtain ⟨hnext, hlt⟩ := past_name (s := s) hstop htail
  obtain ⟨span, hunary⟩ := unaryBody_name header hg ht hs hnext hlt
  obtain ⟨e, z, m, us, vs, hgrows, hrest⟩ :=
    grows_chainStep (s := s) hstop hoperands hk htail (.ident hl span name tail)
  exact ⟨e, z, m, us, vs, (chainBody_ok hg).2 ⟨_, _, hunary, hgrows⟩, hrest⟩

/-- A chain is read where there is a nesting level for each of its operators. -/
theorem climbs_chainBody (o : ParseOptions) (header : Bool) (room : Nat) {level : Nat} (hl : level ≤ leadingLevel)
    (hstop : EndsChain stop) : Climbs (chainBody (Inner.ofRoom o room) header level) stop room level := by
  -- right operands are chains with less room
  induction room generalizing level with
  | zero => exact climbs_of_chain (settled_ofRoom o 0) hl hstop fun h => absurd rfl h
  | succ room ih =>
    refine climbs_of_chain (settled_ofRoom o (room + 1)) hl hstop fun _ op => ih ?_
    have := (rightLevel_le op).2
    unfold leadingLevel
    omega

/-- Names with operators between, up to a semicolon, are read as a whole where there is a nesting level for each
operator and one for the chain.  They make the one tree that groups them as the operators demand. -/
theorem expression_climbs (o : ParseOptions) (header : Bool) {room n : Nat} {s : ParseState} {t semi : Token}
    {name : String} {tail rest : List Token} (ht : t.kind = .ident name) (htail : OperatorTail t n tail)
    (hsemi : semi.kind = .punctuation .semicolon) (hs : s.rest = t :: (tail ++ semi :: rest)) (hroom : n < room) :
    ∃ e, ((Inner.ofRoom o room).expression header).run s =
        (.ok e, { s with last := (t :: tail).getLast?, rest := semi :: rest }) ∧
      e.InOrder ((t :: tail).map Token.kind) ∧ e.Grouped ∧
      ∀ e' : Expr, e'.InOrder ((t :: tail).map Token.kind) → e'.Grouped → SameExpr e' e := by
  obtain ⟨room, rfl⟩ : ∃ r, room = r + 1 := ⟨room - 1, by omega⟩
  have hone : 1 ≤ leadingLevel := by decide
  obtain ⟨e, z, m, us, vs, hrun, hsplit, -, hvs, hfirst, hclimbed⟩ :=
    climbs_chainBody o header room hone ⟨semi, rest, rfl, hsemi⟩ (Nat.le_of_lt_succ hroom) ht htail hs
  -- every operator is of the lowest level at least, so none is left
  obtain rfl : vs = [] := by
    cases hvs with
    | nil => rfl
    | cons hu _ _ _ _ =>
      obtain ⟨hf, hlt⟩ := hfirst.of_cons hu
      have := Operator.one_le_precedence hf
      omega
  obtain rfl : tail = us := by simpa using hsplit
  have hexpression : ((Inner.ofRoom o (room + 1)).expression header).run s = (.ok e, s.past z (semi :: rest)) := by
    refine expressionBody_ok.2 ⟨e, _, hrun, .inl ⟨?_, rfl, rfl⟩⟩
    intro hk
    exact absurd (hsemi.symm.trans hk) (by simp)
  have hlast : some z = (t :: tail).getLast? := by
    obtain ⟨⟨used, hused⟩, -⟩ := advances_run ((settled_ofRoom o (room + 1)).expression header) hexpression
    have hcover : t :: tail = used := by
      refine (List.append_left_inj (semi :: rest)).1 ?_
      rw [List.cons_append, ← hs]
      exact hused.rest
    have hz : some z = used.getLast?.or s.last := hused.last
    rw [hz, ← hcover, List.getLast?_cons]
    rfl
  have hinOrder : e.InOrder ((t :: tail).map Token.kind) := by
    rw [List.map_cons, ht]
    exact hclimbed.inOrder
  refine ⟨e, ?_, hinOrder, hclimbed.grouped, fun e' h hg => h.unique hinOrder hg hclimbed.grouped⟩
  rw [hexpression, ← hlast]
  rfl

/-- The first token of `a - b .. c < d;`. -/
def chainHead : Token := ⟨.ident "a", ⟨0, 1⟩, ⟨1, 1⟩⟩

/-- The tokens behind it, up to the semicolon. -/
def chainTail : List Token :=
  [⟨.operator .minus, ⟨2, 3⟩, ⟨1, 3⟩⟩, ⟨.ident "b", ⟨4, 5⟩, ⟨1, 5⟩⟩, ⟨.operator .dotDot, ⟨6, 8⟩, ⟨1, 7⟩⟩,
   ⟨.ident "c", ⟨9, 10⟩, ⟨1, 10⟩⟩, ⟨.operator .lt, ⟨11, 12⟩, ⟨1, 12⟩⟩, ⟨.ident "d", ⟨13, 14⟩, ⟨1, 14⟩⟩]

/-- The semicolon. -/
def chainStop : Token := ⟨.punctuation .semicolon, ⟨14, 15⟩, ⟨1, 15⟩⟩

theorem operatorTail_chainTail : OperatorTail chainHead 3 chainTail :=
  .cons rfl rfl (by decide) rfl (.cons rfl rfl (by decide) rfl (.cons rfl rfl (by decide) rfl (.nil _)))

/-- An operation, a range and a comparison with three levels of room for the operators and one for the chain. -/
theorem expression_climbs_mixed : OperatorTail chainHead 3 chainTail ∧
    ∃ e, ((Inner.ofRoom {} 4).expression false).run { rest := chainHead :: (chainTail ++ [chainStop]) } =
        (.ok e, { last := (chainHead :: chainTail).getLast?, rest := [chainStop] }) ∧
      e.InOrder ((chainHead :: chainTail).map Token.kind) ∧ e.Grouped ∧
      ∀ e' : Expr, e'.InOrder ((chainHead :: chainTail).map Token.kind) → e'.Grouped → SameExpr e' e :=
  ⟨operatorTail_chainTail, expression_climbs {} false rfl operatorTail_chainTail rfl rfl (by decide)⟩

end Parser

end ElleFrontEnd
