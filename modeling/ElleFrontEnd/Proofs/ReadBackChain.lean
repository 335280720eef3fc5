import ElleFrontEnd.Proofs.ReadBackExpr

/-!
# Operands and operators are read back

Operators and casts before an operand, calls, members and subscripts behind one, chains of operators between operands,
lambdas and conditionals.  What the printer puts in parentheses here is decided for each operand by its level
(`castlessOperand`), and read by `Expr.ReadBack.callee`, `Expr.ReadBack.leading` and `Expr.ReadBack.chained`.

With these, every construct is read back, and so is every tree (`Expr.readBack`).
-/

namespace ElleFrontEnd

open Fragment ElleFrontEnd.Parser

theorem leadingLevel_lt : leadingLevel < trailingLevel := by decide

/-- An empty parameter list. -/
theorem Parser.reads_noParams {G : Inner} {u : ParseState} {f : List Fragment} (hg : G.Settled)
    (hu : Faces u (parens [] ++ f)) :
    ∃ u', (paramList G).run u = (.ok { metaName := none, params := [] }, u') ∧ Clear u' f := by
  rw [parens, List.cons_append, List.cons_append, List.nil_append, List.cons_append, List.nil_append] at hu
  obtain ⟨hk, hc⟩ := hu.mark
  obtain ⟨hk₁, hc₁⟩ := hc.faces.mark
  exact ⟨_, (paramList_ok hg).2 ⟨hk, u.advance, u.advance, metaBinding_ok.2 (.inr ⟨by simp [hk₁], rfl, rfl⟩),
    .nil (.inl hk₁), hk₁, rfl⟩, hc₁⟩

namespace Expr.ReadBack

variable {o : ParseOptions} {room level : Nat} {openRight : Bool} {u : ParseState} {f : List Fragment}

/-! ### Chains of operators -/

/-- What an operand begins with, in parentheses or without. -/
theorem opens_grouped {e : Expr} (h : e.ReadBack o) (level : Nat) (openRight : Bool) :
    ∃ k ks, tokens (grouped level openRight e fun o => e.layout 0 o) = k :: ks ∧ opensOperand true k = true :=
  (heads_grouped (e.heads 0 h.handBuilt h.lawful)).opens

/-- An operator and its right operand are one more round of the chain that its left operand ends. -/
theorem operator_chain {e left right : Expr} {op : Operator} {sep : List Fragment} (hl : left.ReadBack o)
    (hr : right.ReadBack o) (hfix : op.fixity = .between)
    (hsep : sep = [space, Fragment.op op, space] ∨ sep = [Fragment.op op] ∧ op ≠ .gt ∧ op ≠ .lt)
    (hjoin : ∀ {left' right' e'}, left.Regrouped left' → right.Regrouped right' →
      joined? op left' right' = some e' → e.Regrouped e')
    (hpos : 1 ≤ level) (hle : level ≤ op.precedence) (hheight : 2 * max (left.height 1 + 1) (right.height 1 + 1) ≤ room)
    (hcl : castlessOperand (operandLevels op).1 false op.opensOperand left fun o b => left.Castless o b)
    (hcr : castlessOperand (operandLevels op).2 openRight (opensOperand true (next f)) right
      fun o b => right.Castless o b)
    (hf : Trails openRight f) (hbelow : Below (operandLevels op).2 f)
    (hu : Faces u (grouped (operandLevels op).1 false left (fun o => left.layout 0 o) ++
      (sep ++ (grouped (operandLevels op).2 openRight right (fun o => right.layout 0 o) ++ f)))) :
    ReadsChain (.ofRoom o room) level e.Regrouped u f := by
  obtain ⟨room, rfl⟩ : ∃ r, room = r + 1 := ⟨room - 1, by omega⟩
  have hright := rightLevel_le op
  have hnext (f' : List Fragment) : next (sep ++ f') = .operator op := by rcases hsep with rfl | ⟨rfl, -⟩ <;> rfl
  have htrails (f' : List Fragment) : Trails false (sep ++ f') := by
    refine .operator (hnext f') ?_ fun ht => ?_
    · rcases hsep with rfl | ⟨rfl, hgt, -⟩
      · exact fun _ => by simp [touchesWith]
      · exact loose_of_ne (by simpa using hgt)
    · rcases hsep with rfl | ⟨rfl, -, hlt⟩
      · simp [touchesWith] at ht
      · exact hlt (by simpa [touchesWith] using ht)
  have hleft : ReadsChain (.ofRoom o (room + 1)) level left.Regrouped u
      (sep ++ (grouped (operandLevels op).2 openRight right (fun o => right.layout 0 o) ++ f)) := by
    refine hl.chained hpos (Nat.le_trans hle (operandLevels_fst_ge op)) (by omega) ?_ (htrails _) (fun hlevel => ?_) hu
    · rw [hnext]
      exact hcl
    · intro op' hk _
      obtain rfl : op = op' := by simpa [hnext] using hk
      exact precedence_lt_tail hlevel
  refine hleft.next fun {left' u₁} hR hc => ?_
  have hread {u : ParseState} (hu : Faces u (grouped (operandLevels op).2 openRight right
      (fun o => right.layout 0 o) ++ f)) : ReadsAs ((Inner.ofRoom o (room + 1)).chain false
        (rightLevel op.precedence op.associativity)) right.Regrouped u f := by
    rw [operandLevels_snd] at hcr hbelow hu
    exact (hr.chained (by omega) (Nat.le_refl _) (by omega) hcr hf (fun hlevel => hbelow.tail hlevel) hu).readsAs
      (settled_ofRoom o room) hf.loose hbelow
  obtain ⟨right', e', u', hrun, hj, hR', hc'⟩ := shows_chainStep level left' hfix hle
    (hsep.imp_right fun h => ⟨h.1, h.2.1⟩) (hr.opens_grouped _ _) hread hc
  exact ⟨e', u', hrun, hjoin hR hR' hj, hc'⟩

theorem of_binary {span : Span} {left right : Expr} {binary : BinaryOp} (hl : left.ReadBack o)
    (hr : right.ReadBack o) : (Expr.binary span left binary right).ReadBack o := by
  have hfix : binary.operator.fixity = .between := by cases binary <;> rfl
  refine of_chain ⟨hl.handBuilt, hr.handBuilt⟩ ⟨hl.lawful, hr.lawful⟩ (Operator.one_le_precedence hfix)
    binary.operator.precedence_lt fun {level} hpos hle {room openRight u f} _ hs hf hbelow hu => ?_
  simp only [Expr.layout, List.append_assoc] at hu
  refine operator_chain hl hr hfix (.inl rfl) (fun {left' right' e'} hleft hright hj => ?_) hpos hle hs.height_le
    hs.castless.1 hs.castless.2 hf hbelow hu
  obtain ⟨span', rfl⟩ : ∃ span', e' = .binary span' left' binary right' := by
    cases binary <;> exact ⟨_, (Option.some.inj hj).symm⟩
  exact congrArg₂ (Expr.binary .zero · binary ·) hleft hright

theorem of_range {span : Span} {start stop : Expr} {inclusive : Bool} (hl : start.ReadBack o)
    (hr : stop.ReadBack o) : (Expr.range span start stop inclusive).ReadBack o := by
  have hfix : (rangeOperator inclusive).fixity = .between := by cases inclusive <;> rfl
  refine of_chain ⟨hl.handBuilt, hr.handBuilt⟩ ⟨hl.lawful, hr.lawful⟩ (Operator.one_le_precedence hfix)
    (rangeOperator inclusive).precedence_lt fun {level} hpos hle {room openRight u f} _ hs hf hbelow hu => ?_
  simp only [Expr.layout, List.append_assoc] at hu
  have hopen : (rangeOperator inclusive).opensOperand = false := by cases inclusive <;> rfl
  refine operator_chain hl hr hfix (.inr ⟨rfl, ?_, ?_⟩) (fun {start' stop' e'} hstart hstop hj => ?_) hpos hle
    hs.height_le (by rw [hopen]; exact hs.castless.1) hs.castless.2 hf hbelow hu
  · cases inclusive <;> simp [rangeOperator]
  · cases inclusive <;> simp [rangeOperator]
  · obtain ⟨span', rfl⟩ : ∃ span', e' = .range span' start' stop' inclusive := by
      cases inclusive <;> exact ⟨_, (Option.some.inj hj).symm⟩
    exact congrArg₂ (Expr.range .zero · · inclusive) hstart hstop

/-! ### Operators and casts before an operand -/

theorem of_prefixed {span : Span} {op : UnaryOp} {operand : Expr} (h : operand.ReadBack o) :
    (Expr.unary span op operand).ReadBack o := by
  refine of_unary h.handBuilt h.lawful leadingLevel_lt fun {room openRight u f} _ hs hf hu => ?_
  have hheight := hs.height_le
  simp only [Expr.height] at hheight
  obtain ⟨room, rfl⟩ : ∃ r, room = r + 1 := ⟨room - 1, by omega⟩
  have hread {u : ParseState} (hu : Faces u (grouped leadingLevel openRight operand
      (fun o => operand.layout 0 o) ++ f)) :
      ReadsAs ((Inner.ofRoom o (room + 1)).unary false) operand.Regrouped u f :=
    h.leading (by omega) hs.castless hf hu
  rw [Expr.layout, List.append_assoc, List.cons_append] at hu
  obtain ⟨span', e', u', hrun, hR, hc⟩ := shows_prefixed (settled_ofRoom o (room + 1)) op (unarySpace_cases op operand)
    (h.opens_grouped _ _) hread hu
  exact ⟨_, u', hrun, congrArg (Expr.unary .zero op) hR, hc⟩

/-- An operand that begins like an operator between two others is kept apart from a type that is a bare name. -/
theorem not_looksLikeType {e : Expr} (h : e.opensAmbiguously = true) : ¬ LooksLikeType (e.layout 0 true) := by
  rintro ⟨n, ks, hks, -⟩
  obtain ⟨k, f, hf, hk⟩ := e.layout_of_opensAmbiguously 0 true h
  rw [hf, tokens_token] at hks
  obtain ⟨rfl, -⟩ := List.cons.inj hks
  exact absurd hk (by simp [Parser.opensOperand])

/-- An operand that is printed behind a cast without further parentheses is taken for the operand of the cast. -/
theorem follows_cast {e : Expr} (h : e.ReadBack o) (openRight : Bool) {isNamed : Bool}
    (hplain : isNamed = true → e.opensAmbiguously = false) :
    ∃ k ks, tokens (grouped leadingLevel openRight e fun o => e.layout 0 o) = k :: ks ∧
      opensOperand (!isNamed) k = true := by
  cases isNamed with
  | false => exact h.opens_grouped _ _
  | true =>
    unfold grouped
    split
    · exact ⟨_, _, by rw [parens]; rfl, rfl⟩
    · rename_i hneeds
      obtain ⟨hlevel, -⟩ := needsGroup_eq_false.1 (by simpa using hneeds)
      exact e.opensOperand_of_plain 0 h.handBuilt h.lawful hlevel (hplain rfl) openRight

theorem of_cast {span : Span} {type : TypeExpr} {operand : Expr} (h : operand.ReadBack o) (ht : type.WellFormed) :
    (Expr.cast span type operand).ReadBack o := by
  refine of_unary h.handBuilt ⟨ht, h.lawful⟩ leadingLevel_lt fun {room openRight u f} _ hs hf hu => ?_
  have hheight := hs.height_le
  simp only [Expr.height] at hheight
  obtain ⟨room, rfl⟩ : ∃ r, room = r + 1 := ⟨room - 1, by omega⟩
  have hcast := hs.castless
  -- the operand as it is printed, and read
  obtain ⟨c, hlayout, hopen, hread⟩ : ∃ c, (Expr.cast span type operand).layout 0 openRight =
      mark .lParen :: (type.layout ++ mark .rParen :: space :: c) ∧
      (∃ k ks, tokens c = k :: ks ∧ opensOperand (!type.isNamed) k = true) ∧
      ∀ {u : ParseState}, Faces u (c ++ f) → ReadsAs (unaryBody (.ofRoom o room) false) operand.Regrouped u f := by
    by_cases hwrapped : (type.isNamed && operand.opensAmbiguously) = true
    · refine ⟨_, by rw [Expr.layout, if_pos hwrapped, parens]; simp; rfl, ⟨_, _, by rw [parens]; rfl, rfl⟩,
        fun hu => ?_⟩
      simp only [Castless, hwrapped, if_true] at hcast
      obtain ⟨-, hambiguous⟩ := Bool.and_eq_true_iff.1 hwrapped
      exact (h.enclosed (by omega) hcast (fun _ => not_looksLikeType hambiguous) hu).unary (settled_ofRoom o room) hf
    · refine ⟨_, by rw [Expr.layout, if_neg hwrapped, parens]; simp; rfl, ?_, fun hu => ?_⟩
      · exact h.follows_cast _ (by simpa using hwrapped)
      · simp only [Castless, hwrapped] at hcast
        exact h.leading (by omega) hcast hf hu
  rw [hlayout] at hu
  simp only [List.cons_append, List.append_assoc] at hu
  obtain ⟨span', type', e', u', hrun, hsame, hR, hc⟩ := shows_cast (settled_ofRoom o (room + 1)) (Inner.ofRoom_type o _)
    (typeWithin ht (by omega)) hopen hread hu
  exact ⟨_, u', hrun, congrArg₂ (Expr.cast .zero) hsame hR, hc⟩

/-! ### Calls, members and subscripts -/

theorem of_member {span : Span} {object : Expr} {n : String} (h : object.ReadBack o) :
    (Expr.member span object n).ReadBack o := by
  refine of_suffixed h.handBuilt h.lawful (Nat.le_refl _) fun {room u f} hs hf hu => ?_
  have hheight := hs.height_le
  simp only [Expr.height] at hheight
  simp only [Expr.layout, List.append_assoc] at hu
  have hobject : ReadsSuffixed (.ofRoom o room) object.Recalled u ([mark .dot, ofName n] ++ f) :=
    h.callee (by omega) hs.castless (.of_ne (by simp) (by simp) (by simp) (by simp) (by simp)) hu
  refine hobject.next fun {start object' u₁} hR hc => ?_
  obtain ⟨span', u', hrun, hc'⟩ := shows_member (settled_ofRoom o room) start object' hc.faces
  exact ⟨_, u', hrun, ⟨congrArg (Expr.member .zero · n) hR.regrouped, fun _ => rfl⟩, hc'⟩

theorem of_subscript {span : Span} {object index : Expr} (h : object.ReadBack o) (hi : index.ReadBack o) :
    (Expr.subscript span object index).ReadBack o := by
  refine of_suffixed ⟨h.handBuilt, hi.handBuilt⟩ ⟨h.lawful, hi.lawful⟩ (Nat.le_refl _) fun {room u f} hs hf hu => ?_
  have hheight := hs.height_le
  simp only [Expr.height] at hheight
  obtain ⟨room, rfl⟩ : ∃ r, room = r + 1 := ⟨room - 1, by omega⟩
  simp only [Expr.layout, List.append_assoc, List.cons_append, List.nil_append] at hu
  have hobject : ReadsSuffixed (.ofRoom o (room + 1)) object.Recalled u
      (mark .lBracket :: (index.layout 0 true ++ mark .rBracket :: f)) :=
    h.callee (by omega) hs.castless.1 (.of_ne (by simp) (by simp) (by simp) (by simp) (by simp)) hu
  refine hobject.next fun {start object' u₁} hR hc => ?_
  obtain ⟨span', index', u', hrun, hR', hc'⟩ := shows_subscript (settled_ofRoom o (room + 1)) start object'
    (hi.inside (by omega) hs.castless.2) hc.faces
  exact ⟨_, u', hrun, ⟨congrArg₂ (Expr.subscript .zero) hR.regrouped hR', by simp [takesGenerics]⟩, hc'⟩

theorem of_call {span : Span} {callee : Expr} {generics : Option (List TypeExpr)} {args : List Expr}
    (hb : exprListHandBuilt args) (hl : (Expr.call span callee generics args).Lawful) (h : callee.ReadBack o)
    (hargs : ∀ e ∈ args, e.ReadBack o) : (Expr.call span callee generics args).ReadBack o := by
  refine of_suffixed ⟨h.handBuilt, hb⟩ hl (Nat.le_refl _) fun {room u f} hs hf hu => ?_
  have hheight := hs.height_le
  simp only [Expr.height] at hheight
  obtain ⟨room, rfl⟩ : ∃ r, room = r + 1 := ⟨room - 1, by omega⟩
  have hg := settled_ofRoom o (room + 1)
  have hinside : ∀ e ∈ args, ReadsInside (.ofRoom o (room + 1)) 0 Expr.Regrouped e :=
    inside_list hargs hs.castless.2 (by omega)
  simp only [Expr.layout, List.append_assoc] at hu
  cases generics with
  | none =>
    have hnext : next (calleeSpace callee ++ (parens (commas (exprListLayout 0 args)) ++ f)) =
        .punctuation .lParen := by
      unfold calleeSpace
      split <;> simp [parens]
    have hjoins : Joins (room + 1) callee (calleeSpace callee ++ (parens (commas (exprListLayout 0 args)) ++ f)) := by
      refine ⟨loose_of_ne (by simp [hnext]), by simp [hnext], by simp [hnext], fun ht => ?_, ?_, fun henv => ?_⟩
      · simp [ht.2] at hnext
      · rintro ⟨_, _, rfl⟩
        simp [calleeSpace, touchesWith]
      · simp [hl.1.notEnv] at henv
    have hcallee : ReadsSuffixed (.ofRoom o (room + 1)) callee.Recalled u
        (calleeSpace callee ++ (parens (commas (exprListLayout 0 args)) ++ f)) :=
      h.callee (by omega) (by rw [hnext]; exact hs.castless.1) hjoins hu
    refine hcallee.next fun {start callee' u₁} hR hc => ?_
    have hu₁ : Faces u₁ (parens (commas (exprListLayout 0 args)) ++ f) := by
      unfold calleeSpace at hc
      split at hc
      · exact hc.space
      · exact hc.faces
    obtain ⟨span', args', u', hrun, hrel, hc'⟩ := shows_call hg start callee' hinside hu₁
    exact ⟨_, u', hrun, ⟨congrArg₂ (Expr.call .zero · none ·) hR.regrouped (Regrouped.list hrel),
      by simp [takesGenerics]⟩, hc'⟩
  | some generics =>
    have htake : callee.takesGenerics = true := hl.1.takesGenerics rfl
    have hspace : calleeSpace callee = [] := by
      unfold calleeSpace
      split
      · simp [takesGenerics] at htake
      · rfl
    have hgenerics : ArgsWithin (room + 1) generics := argsWithin hl.2.1 (by omega) generics rfl
    rw [hspace, List.nil_append] at hu
    have hjoins : Joins (room + 1) callee
        (Fragment.angles (commas (typeListLayout generics)) ++ (parens (commas (exprListLayout 0 args)) ++ f)) := by
      refine ⟨loose_of_ne (by simp [Fragment.angles]), by simp [Fragment.angles], by simp [Fragment.angles],
        fun _ => ⟨generics, _, rfl, rfl, hgenerics⟩, ?_, fun _ => by simp [Fragment.angles]⟩
      rintro ⟨_, _, rfl⟩
      simp [takesGenerics] at htake
    have hcallee : ReadsSuffixed (.ofRoom o (room + 1)) callee.Recalled u
        (Fragment.angles (commas (typeListLayout generics)) ++ (parens (commas (exprListLayout 0 args)) ++ f)) :=
      h.callee (by omega) hs.castless.1 hjoins hu
    refine hcallee.next fun {start callee' u₁} hR hc => ?_
    obtain ⟨span', generics', args', u', hrun, hsame, hrel, hc'⟩ :=
      shows_genericCall hg (Inner.ofRoom_type o _) start (hR.takes htake) hgenerics hinside hc
    refine ⟨_, u', hrun, ⟨?_, by simp [takesGenerics]⟩, hc'⟩
    have hcallee' : callee.mapSpans noSpan = callee'.ungrouped.mapSpans noSpan := hR.regrouped
    have hargs' := Regrouped.list hrel
    change Expr.call .zero _ (some _) _ = Expr.call .zero _ (some _) _
    rw [hcallee', hsame, hargs']

/-! ### Lambdas and conditionals -/

/-- The body of a lambda, or the alternative of a conditional, is a whole expression. -/
theorem whole {e : Expr} (h : e.ReadBack o) (hroom : 2 * e.height 1 ≤ room)
    (hin : castlessOperand conditionalLevel true (opensOperand true (next f)) e fun o b => e.Castless o b)
    (hf : closes (next f) = true) (hbrace : next f ≠ .punctuation .lBrace)
    (hu : Faces u (grouped conditionalLevel true e (fun o => e.layout 0 o) ++ f)) :
    ReadsAs (expressionBody (.ofRoom o room) false) e.Regrouped u f := by
  have hnone : e.needsGroup conditionalLevel true = false := by simp [needsGroup, conditionalLevel]
  rw [castlessOperand, if_neg (by simp [hnone])] at hin
  rw [grouped, if_neg (by simp [hnone])] at hu
  exact h.expression hf hbrace ⟨hroom, hin⟩ hu

theorem of_lambda {span : Span} {params : ParamList} {body : Expr}
    (hparams : params.metaName = none ∧ params.params = []) (hl : (Expr.lambda span params body).Lawful)
    (h : body.ReadBack o) : (Expr.lambda span params body).ReadBack o := by
  obtain ⟨metaName, list⟩ := params
  obtain ⟨rfl, rfl⟩ : metaName = none ∧ list = [] := hparams
  refine of_unary ⟨⟨rfl, rfl⟩, h.handBuilt⟩ hl leadingLevel_lt fun {room openRight u f} hopen hs hf hu => ?_
  obtain rfl : openRight = true := hopen rfl
  have hheight := hs.height_le
  simp only [Expr.height] at hheight
  obtain ⟨room, rfl⟩ : ∃ r, room = r + 1 := ⟨room - 1, by omega⟩
  have hg := settled_ofRoom o (room + 1)
  simp only [Expr.layout, ParamList.layout, metaLayout, List.map_nil, List.append_nil, commas_nil, List.append_assoc,
    List.cons_append, List.nil_append] at hu
  obtain ⟨hk, hc⟩ := hu.word
  obtain ⟨u₁, hparams, hc₁⟩ := reads_noParams hg hc.faces
  have hbrace : u₁.peek.kind ≠ .punctuation .lBrace := by
    intro hk
    have := opens_of_faces (h.opens_grouped conditionalLevel true) hc₁.space
    simp [hk, Parser.opensOperand] at this
  have hbody : ReadsAs ((Inner.ofRoom o (room + 1)).expression false) body.Regrouped u₁ f :=
    h.whole (by omega) hs.castless (hf.closes rfl) hf.brace hc₁.space
  obtain ⟨body', u', hrun, hR, hc'⟩ := hbody
  have hlambda := lambda_ok.2 ⟨hk, _, u₁, hparams, .inr ⟨hbrace, body', hrun, rfl⟩⟩
  exact (ReadsSuffixed.of_primary (by simp [hk]) (by simp [hk])
    ⟨_, u', primary_ok.2 (.inr (.inl ⟨hk, hlambda⟩)), congrArg (Expr.lambda .zero _) hR, hc'⟩).unary hg hf

theorem of_conditional {span : Span} {condition alternative : Expr} {consequence : Option Expr}
    (hc : condition.ReadBack o) (hq : ∀ e ∈ consequence, e.ReadBack o) (ha : alternative.ReadBack o)
    (hb : optExprHandBuilt consequence) (hl : optExprLawful consequence) :
    (Expr.conditional span condition consequence alternative).ReadBack o where
  handBuilt := ⟨hc.handBuilt, hb, ha.handBuilt⟩
  lawful := ⟨hc.lawful, hl, ha.lawful⟩
  suffixed h := absurd h (by simp [level, conditionalLevel, trailingLevel])
  unary h := absurd h (by simp [level, conditionalLevel, leadingLevel])
  chain hpos hle := absurd (Nat.le_trans hpos hle) (by simp [level, conditionalLevel])
  expression {room u f} hf hbrace hs hu := by
    have hheight := hs.height_le
    simp only [Expr.height] at hheight
    obtain ⟨room, rfl⟩ : ∃ r, room = r + 1 := ⟨room - 1, by omega⟩
    rw [layout_conditional] at hu
    simp only [List.append_assoc, List.cons_append] at hu
    have hchain : ReadsChain (.ofRoom o (room + 1)) 1 condition.Regrouped u _ :=
      hc.chained (Nat.le_refl 1) (Nat.le_refl (conditionalLevel + 1)) (by omega) hs.castless.1 .question
        (fun _ => .question) hu
    obtain ⟨condition', u₁, hrun, hR, hc₁⟩ :=
      hchain.readsAs (settled_ofRoom o _) (loose_of_ne (by simp)) .question
    have hchosen : ∀ e ∈ consequence, (∃ k ks, tokens (e.layout 0 true) = k :: ks ∧ opensOperand true k = true) ∧
        ∀ {u : ParseState} {f : List Fragment}, next f = .punctuation .colon → Faces u (e.layout 0 true ++ f) →
          ∃ e' u', ((Inner.ofRoom o (room + 1)).expression false).run u = (.ok e', u') ∧ Regrouped e e' ∧
            Clear u' f := by
      intro e he
      have hinside : ReadsInside (.ofRoom o (room + 1)) 0 Expr.Regrouped e :=
        inside_option hq hs.castless.2.1 (by omega) e he
      exact ⟨hinside.opens, fun hf hu => hinside.reads (by rw [hf]; rfl) (by simp [hf]) hu⟩
    obtain ⟨span', chosen', alternative', u', hrun', hrel, hR', hc'⟩ := shows_conditional hrun hc₁ hchosen
      fun hu => ha.whole (by omega) hs.castless.2.2 hf hbrace hu
    refine ⟨_, u', hrun', ?_, hc'⟩
    have hcondition : condition.mapSpans noSpan = condition'.ungrouped.mapSpans noSpan := hR
    have halternative : alternative.mapSpans noSpan = alternative'.ungrouped.mapSpans noSpan := hR'
    rcases optionRel_iff.1 hrel with ⟨rfl, rfl⟩ | ⟨c, c', rfl, rfl, hchosen⟩
    · exact congrArg₂ (Expr.conditional .zero · none ·) hcondition halternative
    · have hchosen : c.mapSpans noSpan = c'.ungrouped.mapSpans noSpan := hchosen
      change Expr.conditional .zero _ (some _) _ = Expr.conditional .zero _ (some _) _
      rw [hcondition, halternative, hchosen]

end Expr.ReadBack

/-! ### Every tree is read back -/

section
variable (o : ParseOptions)

mutual

/-- A lawful tree that was built by hand is read back. -/
theorem Expr.readBack : (e : Expr) → e.HandBuilt → e.Lawful → e.ReadBack o
  | .binary _ left _ right, hb, hl => .of_binary (left.readBack hb.1 hl.1) (right.readBack hb.2 hl.2)
  | .range _ start stop _, hb, hl => .of_range (start.readBack hb.1 hl.1) (stop.readBack hb.2 hl.2)
  | .unary _ _ operand, hb, hl => .of_prefixed (operand.readBack hb hl)
  | .cast _ _ operand, hb, hl => .of_cast (operand.readBack hb hl.2) hl.1
  | .call _ callee _ args, hb, hl =>
    .of_call hb.2 hl (callee.readBack hb.1 hl.2.2.1) (exprList_readBack args hb.2 hl.2.2.2)
  | .member _ object _, hb, hl => .of_member (object.readBack hb hl)
  | .subscript _ object index, hb, hl => .of_subscript (object.readBack hb.1 hl.1) (index.readBack hb.2 hl.2)
  | .conditional _ condition consequence alternative, hb, hl =>
    .of_conditional (condition.readBack hb.1 hl.1) (optExpr_readBack consequence hb.2.1 hl.2.1)
      (alternative.readBack hb.2.2 hl.2.2) hb.2.1 hl.2.1
  | .paren _ _, hb, _ | .blockLambda _ _ _, hb, _ => absurd hb id
  | .ident span n, _, _ => .of_ident span n
  | .qualified span _, _, hl => .of_qualified span hl
  | .rawName span raw, _, _ => .of_literal (show literalOf? span (.rawName raw) = _ from rfl)
  | .number span literal, _, _ => .of_literal (show literalOf? span (.number literal) = _ from rfl)
  | .str span parts, _, _ => .of_literal (show literalOf? span (.str parts) = _ from rfl)
  | .bool span value, _, _ => .of_literal (show literalOf? span (.keyword (.boolean value)) = _ from rfl)
  | .char span part, _, _ => .of_literal (show literalOf? span (.char part) = _ from rfl)
  | .array _ _ _ elements, hb, hl => .of_array hb hl (exprList_readBack elements hb hl.2)
  | .tuple _ first second, hb, hl => .of_tuple (first.readBack hb.1 hl.1) (second.readBack hb.2 hl.2)
  | .triple _ first second third, hb, hl =>
    .of_triple (first.readBack hb.1 hl.1) (second.readBack hb.2.1 hl.2.1) (third.readBack hb.2.2 hl.2.2)
  | .structLit _ _ _ fields, hb, hl => .of_structLit hb hl (fieldInitList_readBack fields hb hl.2)
  | .lambda _ _ body, hb, hl => .of_lambda hb.1 hl (body.readBack hb.2 hl.2)
  | .directive _ directive, hb, hl => .of_directive hb hl (directive.readBack hb hl)
  | .sigil span n none, _, _ => .of_sigilAlone span n
  | .sigil _ _ (some args), hb, hl => .of_sigil hb hl (exprList_readBack args hb hl)

theorem exprList_readBack : (es : List Expr) → exprListHandBuilt es → exprListLawful es → ∀ e ∈ es, e.ReadBack o
  | [], _, _ => by simp
  | e :: es, hb, hl => List.forall_mem_cons.2 ⟨e.readBack hb.1 hl.1, exprList_readBack es hb.2 hl.2⟩

theorem optExpr_readBack : (e : Option Expr) → optExprHandBuilt e → optExprLawful e → ∀ c ∈ e, c.ReadBack o
  | none, _, _ => by simp
  | some e, hb, hl => by simpa using e.readBack hb hl

theorem fieldInitList_readBack : (fs : List FieldInit) → fieldInitListHandBuilt fs → fieldInitListLawful fs →
    ∀ i ∈ fs, i.ReadBack o
  | [], _, _ => by simp
  | .mk _ _ value :: fs, hb, hl =>
    List.forall_mem_cons.2 ⟨value.readBack hb.1 hl.1, fieldInitList_readBack fs hb.2 hl.2⟩

theorem Directive.readBack : (d : Directive) → d.HandBuilt → d.Lawful → d.ReadBack o
  | .len value, hb, hl | .free value, hb, hl | .setAllocator value, hb, hl => value.readBack hb hl
  | .size _, _, _ | .ident _, _, _ | .env, _, _ | .resetAllocator, _, _ => trivial
  | .alloc _ count, hb, hl => optExpr_readBack count hb hl.2
  | .realloc pointer _ count, hb, hl => ⟨pointer.readBack hb.1 hl.1, optExpr_readBack count hb.2 hl.2.2⟩

end

end

end ElleFrontEnd
