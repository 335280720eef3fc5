import ElleFrontEnd.Proofs.Exact
import ElleFrontEnd.Proofs.Nodes
import ElleFrontEnd.Proofs.TypeNesting

/-!
# Nodes that are read again

A node of a tree was read from some tokens, which it covers.  What is read of these tokens when others stand behind them
is the node again (`Node.Recurs`).  For a type this needs that pairs of types settle, and that no second half of a `>>`
is left over: a list of type arguments that is closed by the first half covers both.

The lemmas on the grammar say where nodes are found: from place to place, all nodes of what is read in between recur
(`Finds`).
-/

namespace ElleFrontEnd

open ElleFrontEnd.Parser (typeExpr Along AnglesNest)

variable {limit : Nat} {tokens : List Token} {ample : Prop}

/-! ### Stretches -/

/-- A stretch of the stream from one state to another: at least a token, and nothing is owed before it. -/
structure Stretch (tokens : List Token) (span : Span) (used : List Token) (s s' : ParseState) : Prop where
  along : Along tokens s
  owed : s.owed = 0
  passes : Passes s used s'
  ne_nil : used ≠ []
  span : span = s'.spanFrom s.start

theorem Stretch.of_advances {s s' : ParseState} {span : Span} (hs : Along tokens s) (ho : s.owed = 0)
    (ha : Advances s s') (hlt : s'.rest.length < s.rest.length) (hspan : span = s'.spanFrom s.start) :
    ∃ used, Stretch tokens span used s s' := by
  obtain ⟨⟨used, hp⟩, -⟩ := ha
  refine ⟨used, hs, ho, hp, ?_, hspan⟩
  rintro rfl
  exact absurd hlt (by simp [show s.rest = s'.rest from hp.rest])

/-- A type is read again of the tokens that it covers, where these do not end within a `>>`. -/
def TypeExpr.Recurs (limit : Nat) (tokens : List Token) (t : TypeExpr) : Prop :=
  ∃ room used s s', Stretch tokens t.span used s s' ∧ (TokenKind.angles.Balanced (halvesOf used) → ∀ y, Inert y →
    (typeExpr limit room 0).run (s.graft s'.rest.length y) = (.ok t, s'.graft s'.rest.length y))

/-- A place on the stream at which nothing is owed or recorded.  Where levels are ample, fewer tokens than levels are
left there. -/
structure Roomy (tokens : List Token) (ample : Prop) (room : Nat) (s : ParseState) : Prop extends Stands tokens s where
  room : ample → s.rest.length + 3 < room

theorem Roomy.of_advances {room : Nat} {s s' : ParseState} (hs : Roomy tokens ample room s) (h : Along tokens s')
    (ho : s'.owed = 0) (ha : Advances s s') : Roomy tokens ample room s' :=
  ⟨⟨h, ho⟩, fun hample => Nat.lt_of_le_of_lt (Nat.add_le_add_right ha.length_le 3) (hs.room hample)⟩

/-- An expression is read again of the tokens that it covers. -/
def Expr.Recurs (limit : Nat) (tokens : List Token) (ample : Prop) (e : Expr) : Prop :=
  ∃ room used s s', Stretch tokens e.span used s s' ∧ Roomy tokens ample room s ∧ s'.owed = 0 ∧ ∀ y, Inert y →
    ((Inner.ofRoom ⟨limit, false⟩ room).expression false).run (s.graft s'.rest.length y) =
      (.ok e, s'.graft s'.rest.length y)

/-- An expression is the inner one of two that a token `&&` stands before, and its operand is read again of the tokens
behind that. -/
def Expr.RecursHalved (limit : Nat) (tokens : List Token) (ample : Prop) (e : Expr) : Prop :=
  ∃ room used s s' operand, s.peek.kind = .operator .andAnd ∧
    Parser.opensOperand true s.advance.peek.kind = true ∧ Stretch tokens operand.span used s.advance s' ∧
      Roomy tokens ample (room + 1) s ∧ s'.owed = 0 ∧ e = .unary ⟨s.start + 1, s'.readStop⟩ .addrOf operand ∧
        ∀ y, Inert y → ((Inner.ofRoom ⟨limit, false⟩ room).unary false).run (s.advance.graft s'.rest.length y) =
          (.ok operand, s'.graft s'.rest.length y)

/-- A node is read again of the tokens that it covers, a type where pairs of types settle. -/
def Node.Recurs (limit : Nat) (tokens : List Token) (ample : Prop) : Node → Prop
  | .type t => PairsSettle limit tokens → t.Recurs limit tokens
  | .expr e => e.Recurs limit tokens ample ∨ e.RecursHalved limit tokens ample

/-! ### Types -/

namespace Parser

variable {s s₁ s' : ParseState} {room angles : Nat} {t : TypeExpr}

theorem closeAngle_outermost (h : (closeAngle (angles + 1)).run s = (.ok (), s')) (ho : s'.owed = 0) :
    (closeAngle 1).run s = (.ok (), s') := by
  rcases closeAngle_ok.1 h with ⟨hs, rfl⟩ | ⟨hs, hk, rfl⟩ | ⟨-, -, -, rfl⟩
  · exact closeAngle_ok.2 (.inl ⟨hs, rfl⟩)
  · exact closeAngle_ok.2 (.inr (.inl ⟨hs, hk, rfl⟩))
  · cases ho

section
variable (hp : PairsSettle limit tokens) (hroom : room ≤ limit) (hs : Along tokens s) (ho : s.owed = 0)
include hp hroom hs ho

theorem baseType_outermost {start : Nat} (ho' : s'.owed = 0)
    (ih : ∀ {angles s t s'}, Along tokens s → s.owed = 0 → (typeExpr limit room angles).run s = (.ok t, s') →
      s'.owed = 0 → (typeExpr limit room 0).run s = (.ok t, s'))
    (h : (baseType (typeExpr limit room) angles start).run s = (.ok t, s')) :
    (baseType (typeExpr limit room) 0 start).run s = (.ok t, s') := by
  refine baseType_ok.2 ?_
  rcases baseType_ok.1 h with h | ⟨name, hk, h⟩ | ⟨hk, h⟩
  · exact .inl h
  · refine .inr (.inl ⟨name, hk, namedType_ok.2 ?_⟩)
    rcases namedType_ok.1 h with ⟨hk₁, hadj, args, hargs, rfl⟩ | h
    · obtain ⟨hlt, s₁, hl, hc⟩ := (typeArgs_ok (advances_typeExpr limit room)).1 hargs
      rw [typeExpr_inner] at hl
      exact .inl ⟨hk₁, hadj, args,
        (typeArgs_ok (advances_typeExpr limit room)).2 ⟨hlt, s₁, hl, closeAngle_outermost hc ho'⟩, rfl⟩
    · exact .inr h
  · obtain ⟨first, s₁, second, s₂, h₁, hcomma, h₂, hclose, rfl, rfl⟩ := tupleType_ok.1 h
    have hfirst := owed_first hp hroom hs ho hk h₁ hcomma
    have hs₁ := hs.advance.typeExpr h₁
    rw [ParseState.advance_owed] at ho'
    exact .inr (.inr ⟨hk, tupleType_ok.2 ⟨first, s₁, second, s₂,
      ih hs.advance ((ParseState.advance_owed _).trans ho) h₁ hfirst, hcomma,
      ih hs₁.advance ((ParseState.advance_owed _).trans hfirst) h₂ ho', hclose, rfl, rfl⟩⟩)

/-- A type behind which nothing is owed is read as outside of all type arguments. -/
theorem typeExpr_outermost (h : (typeExpr limit room angles).run s = (.ok t, s')) (ho' : s'.owed = 0) :
    (typeExpr limit room 0).run s = (.ok t, s') := by
  induction room generalizing angles s t s' with
  | zero => exact absurd (tooDeep_ok.1 h) id
  | succ room ih =>
    obtain ⟨base, s₁, hb, hgrow⟩ := typeBody_ok.1 h
    have hroom' := Nat.le_of_succ_le hroom
    have ho₁ : s₁.owed = 0 := owed_of_grows hgrow ▸ ho'
    exact typeBody_ok.2 ⟨base, s₁, baseType_outermost hp hroom' hs ho ho₁ (fun hs ho => ih hroom' hs ho) hb, hgrow⟩

end

theorem owed_of_typeSuffix {start : Nat} {t t' : TypeExpr} (h : (typeSuffix start t).run s = (.ok (some t'), s')) :
    s.owed = 0 ∧ s'.owed = 0 := by
  obtain ⟨ho, ⟨-, n, hn, -⟩ | ⟨-, -, n, hn, -⟩⟩ := typeSuffix_some.1 h
  · exact ⟨ho, (@ahead_starRun (fun _ => false) _ _ _ ho hn).2⟩
  · exact ⟨ho, (@ahead_bracketRun (fun _ => false) _ _ _ ho hn).2⟩

/-- The runs of `*` and `[]` up to some place behind a type are read again where the source ends there. -/
theorem typeSuffixes_graft {n start : Nat} {y : List Token} (hy : Inert y) {t t' : TypeExpr}
    (h : Ascends (typeSuffix start) t s t' s') (hs : s.last.isSome = true) (hn : n ≤ s'.rest.length) :
    Ascends (typeSuffix start) t (s.graft n y) t' (s'.graft n y) := by
  induction h with
  | refl => exact .refl
  | @next t t₁ t' s₀ s₁ s' h hrest ih =>
    have hn₁ := Nat.le_trans hn (hrest.advances fun _ _ => Alike.advances
      (fun us => Alike.typeSuffix (.refl us) start start rfl) _).length_le
    have hcalm := Calm.inert (s := s₀) hy hn₁
    have ho := (owed_of_typeSuffix h).2
    exact .next (typeSuffix_graft h hs hn₁ (hcalm.star ho) (hcalm.brackets ho))
      (ih (ParseState.last_isSome_of_advances (advances_typeSuffix h) hs) hn)

/-- What has been read of a type so far is read again where the source ends there. -/
theorem typeSoFar_graft {y : List Token} (hy : Inert y) {base : TypeExpr}
    (hb : (baseType (typeExpr limit room) 0 s.start).run s = (.ok base, s₁))
    (h : Ascends (typeSuffix s.start) base s₁ t s') : (typeExpr limit (room + 1) 0).run (s.graft s'.rest.length y) =
      (.ok t, s'.graft s'.rest.length y) := by
  have ha := advances_typeExpr limit room
  obtain ⟨he, hadv⟩ := advances_baseType ha hb
  have hle := (h.advances fun _ _ => Alike.advances (fun us => Alike.typeSuffix (.refl us) _ _ rfl) _).length_le
  have hlt : s'.rest.length < s.rest.length :=
    Nat.lt_of_le_of_lt (Nat.le_trans hle hadv.length_le) (length_advance_lt he)
  have hlast := ParseState.last_isSome_of_advances hadv (ParseState.last_isSome_advance he)
  have hargs : NoArgs s'.rest.length y s s₁ := by
    rcases Nat.lt_or_eq_of_le hle with hlt | heq
    · exact .inl hlt
    · refine .inr (.inr ?_)
      rcases ParseState.peek_graft_of_le hy (Nat.le_of_eq heq.symm) with hk | hk <;> simp [hk]
  refine typeBody_ok.2 ⟨base, s₁.graft s'.rest.length y, ?_, ?_⟩ <;> rw [ParseState.peek_graft hlt]
  · exact baseType_graft ha (fun _ _ _ _ hcalm h => graft_typeExpr hcalm h) hb hle hargs
  · refine (typeSuffixes_graft hy h hlast (Nat.le_refl _)).grows (typeSuffix_none.2 ⟨.inr ?_, rfl⟩)
    have hk := ParseState.peek_graft_of_le (s := s') hy (Nat.le_refl _)
    constructor
    · rcases hk with hk | hk <;> simp [hk]
    · rintro ⟨hb, -⟩
      rcases hk with hk | hk <;> rw [hk] at hb <;> cases hb

theorem nests_replicate_gt (n : Nat) :
    TokenKind.angles.nests (List.replicate n (.operator .gt)) (List.replicate n (.operator .gt)) = true := by
  induction n with
  | zero => rfl
  | succ n ih => simp [List.replicate_succ, Brackets.nests, TokenKind.angles] at ih ⊢; exact ih

/-- Behind a type whose `<` and `>` are balanced, nothing is owed that was not before. -/
theorem owed_of_balanced {used : List Token} (ho : s.owed = 0) (h : (typeExpr limit room angles).run s = (.ok t, s'))
    (hp : Passes s used s') (hused : TokenKind.angles.Balanced (halvesOf used)) : s'.owed = 0 := by
  obtain ⟨hle, used', hp', hnests⟩ := (anglesNest_walk limit room).typeExpr (Nat.le_refl _) h (by omega)
  obtain rfl := hp.unique hp'
  have hclosed := hnests (List.replicate angles (.operator .gt))
  rw [ho, Nat.sub_zero, Brackets.nests_append hused, nests_replicate_gt] at hclosed
  have hall : TokenKind.angles.nests (List.replicate (angles - s'.owed) (.operator .gt) ++
      List.replicate s'.owed (.operator .gt)) (List.replicate angles (.operator .gt)) = true := by
    rw [← List.replicate_add, Nat.sub_add_cancel hle]
    exact nests_replicate_gt angles
  rw [← List.append_nil (List.replicate angles (TokenKind.operator .gt))] at hclosed
  simpa using Brackets.nests_extra hall hclosed.symm

section
variable (hp : PairsSettle limit tokens) (hroom : room + 1 ≤ limit) (hs : Along tokens s) (ho : s.owed = 0)
include hp hroom hs ho

/-- What has been read of a type so far is a type that recurs, if nothing is owed behind it. -/
theorem recurs_soFar {base : TypeExpr} (hb : (baseType (typeExpr limit room) angles s.start).run s = (.ok base, s₁))
    (h : Ascends (typeSuffix s.start) base s₁ t s')
    (hend : ∀ used, Passes s used s' → TokenKind.angles.Balanced (halvesOf used) → s'.owed = 0) :
    t.Recurs limit tokens := by
  have hsuffix (t : TypeExpr) (s₁ : ParseState) : Advances s₁ (typeSuffix s.start t s₁).2 :=
    Alike.advances (fun us => Alike.typeSuffix (.refl us) _ _ rfl) s₁
  obtain ⟨he, hadv⟩ := advances_baseType (advances_typeExpr limit room) hb
  have hlt : s'.rest.length < s.rest.length :=
    Nat.lt_of_le_of_lt ((h.advances hsuffix).trans (.refl _)).length_le
      (Nat.lt_of_le_of_lt hadv.length_le (length_advance_lt he))
  obtain ⟨used, hstretch⟩ :=
    Stretch.of_advances hs ho (((Advances.advance s).trans hadv).trans (h.advances hsuffix)) hlt
    (span_typeSuffixes h (span_baseType hb))
  refine ⟨room + 1, used, s, s', hstretch, fun hused y hy => ?_⟩
  have ho₁ : s₁.owed = 0 := by
    cases h with
    | refl => exact hend used hstretch.passes hused
    | next h _ => exact (owed_of_typeSuffix h).1
  have houtermost := baseType_outermost hp (Nat.le_of_succ_le hroom) hs ho ho₁
    (fun hs ho => typeExpr_outermost hp (Nat.le_of_succ_le hroom) hs ho) hb
  exact typeSoFar_graft hy houtermost h

end

/-- The types in a type that goes on with `*` and `[]` are those that it has gone on from. -/
theorem soFar_of_mem_nodes {start : Nat} {base : TypeExpr} {node : Node} (h : Ascends (typeSuffix start) base s t s')
    (hnode : node ∈ t.nodes) : node ∈ base.nodes ∨ ∃ t₁ s₁, node = .type t₁ ∧
      Ascends (typeSuffix start) base s t₁ s₁ ∧ (s₁ = s' ∧ t₁ = t ∨ s₁.owed = 0) := by
  induction h with
  | refl => exact .inl hnode
  | @next base base₁ t s s₁ s' h hrest ih =>
    rcases ih hnode with hbase | ⟨t₂, s₂, rfl, h₂, hend⟩
    · have hmem : node = .type base₁ ∨ node ∈ base.nodes := by
        obtain ⟨-, ⟨-, n, -, rfl⟩ | ⟨-, -, n, -, rfl⟩⟩ := typeSuffix_some.1 h <;>
          simpa [TypeExpr.nodes] using hbase
      rcases hmem with rfl | hmem
      · exact .inr ⟨base₁, s₁, rfl, .next h .refl, .inr (owed_of_typeSuffix h).2⟩
      · exact .inl hmem
    · exact .inr ⟨t₂, s₂, rfl, .next h h₂, hend⟩

/-- The types among type arguments begin where nothing is owed. -/
theorem recurs_typeArgs {type : Parser TypeExpr} {args : List TypeExpr}
    (ht : ∀ {s t s'}, Along tokens s → s.owed = 0 → type.run s = (.ok t, s') →
      Along tokens s' ∧ ∀ node ∈ t.nodes, node.Recurs limit tokens ample) (hs : Along tokens s) (ho : s.owed = 0)
    (h : Listed (fun _ => False) separatesArgs type s args s') :
    ∀ node ∈ typeListNodes args, node.Recurs limit tokens ample := by
  induction h with
  | nil h => exact h.elim
  | last _ h _ => simpa [typeListNodes] using (ht hs ho h).2
  | more _ h hsep _ ih =>
    obtain ⟨hs₁, hnodes⟩ := ht hs ho h
    rw [typeListNodes]
    exact List.forall_mem_append.2 ⟨hnodes, ih hs₁.advance ((ParseState.advance_owed _).trans hsep.1)⟩

/-- Where pairs of types settle, every type in a type is read again of the tokens that it covers. -/
theorem recurs_typeExpr (hp : PairsSettle limit tokens) (hroom : room ≤ limit) (hs : Along tokens s) (ho : s.owed = 0)
    (h : (typeExpr limit room angles).run s = (.ok t, s')) : ∀ node ∈ t.nodes, node.Recurs limit tokens ample := by
  induction room generalizing angles s t s' with
  | zero => exact absurd (tooDeep_ok.1 h) id
  | succ room ih =>
    have hinner {angles : Nat} {s s' : ParseState} {t : TypeExpr} (hs : Along tokens s) (ho : s.owed = 0)
        (h : (typeExpr limit room angles).run s = (.ok t, s')) := ih (Nat.le_of_succ_le hroom) hs ho h
    obtain ⟨base, s₁, hb, hgrow⟩ := typeBody_ok.1 h
    obtain ⟨s₂, hclimb, hstop⟩ := Ascends.of_grows hgrow
    obtain rfl : s₂ = s' := (typeSuffix_none.1 hstop).2
    -- the base is the type so far, and what it holds is read within it
    have hbase : ∀ node ∈ base.nodes, node = .type base ∨ node.Recurs limit tokens ample := by
      have hown : s.advance.owed = 0 := (ParseState.advance_owed s).trans ho
      rcases baseType_ok.1 hb with ⟨p, -, rfl, rfl⟩ | ⟨name, -, h⟩ | ⟨hk, h⟩
      · simp [TypeExpr.nodes]
      · rcases namedType_ok.1 h with ⟨-, -, args, hargs, rfl⟩ | ⟨-, rfl, rfl⟩
        · obtain ⟨-, s₃, hl, -⟩ := (typeArgs_ok (advances_typeExpr limit room)).1 hargs
          have hargs := recurs_typeArgs (fun hs ho h => ⟨hs.typeExpr h, hinner hs ho h⟩) hs.advance.advance
            ((ParseState.advance_owed _).trans hown) hl
          rw [TypeExpr.nodes]
          exact List.forall_mem_cons.2 ⟨.inl rfl, fun node hn => .inr (hargs node hn)⟩
        · simp [TypeExpr.nodes]
      · obtain ⟨first, s₃, second, s₄, h₁, hcomma, h₂, -, rfl, rfl⟩ := tupleType_ok.1 h
        have hfirst := owed_first hp (Nat.le_of_succ_le hroom) hs ho hk h₁ hcomma
        have h₂ := hinner (hs.advance.typeExpr h₁).advance ((ParseState.advance_owed _).trans hfirst) h₂
        have h₁ := hinner hs.advance hown h₁
        rw [TypeExpr.nodes]
        exact List.forall_mem_cons.2 ⟨.inl rfl, fun node hn => .inr ((List.mem_append.1 hn).elim (h₁ node) (h₂ node))⟩
    have hend {used : List Token} (hpasses : Passes s used s₂) (hused : TokenKind.angles.Balanced (halvesOf used)) :
        s₂.owed = 0 := owed_of_balanced ho h hpasses hused
    have hsoFar {t₁ : TypeExpr} {s₃ : ParseState} (hc : Ascends (typeSuffix s.start) base s₁ t₁ s₃)
        (hlast : s₃ = s₂ ∨ s₃.owed = 0) : (Node.type t₁).Recurs limit tokens ample := by
      refine fun _ => recurs_soFar hp hroom hs ho hb hc fun used hpasses hused => ?_
      rcases hlast with rfl | ho
      · exact hend hpasses hused
      · exact ho
    intro node hnode
    rcases soFar_of_mem_nodes hclimb hnode with hmem | ⟨t₁, s₃, rfl, hc, hlast⟩
    · rcases hbase node hmem with rfl | h
      · refine hsoFar .refl ?_
        cases hclimb with
        | refl => exact .inl rfl
        | next h _ => exact .inr (owed_of_typeSuffix h).1
      · exact h
    · exact hsoFar hc (hlast.imp_left And.left)

end Parser

/-! ### From place to place -/

/-- From a place on the stream to another, nodes are found that are read again of the tokens that they cover. -/
def Finds (limit : Nat) (tokens : List Token) (ample : Prop) (room : Nat) (s : ParseState) (nodes : List Node)
    (room' : Nat) (s' : ParseState) : Prop :=
  Roomy tokens ample room s → Roomy tokens ample room' s' ∧ ∀ node ∈ nodes, node.Recurs limit tokens ample

namespace Finds

variable {room room₁ room' : Nat} {s s₁ s' : ParseState} {nodes nodes' : List Node}

theorem refl : Finds limit tokens ample room s [] room s := fun hs => ⟨hs, by simp⟩

theorem trans (h : Finds limit tokens ample room s nodes room₁ s₁)
    (h' : Finds limit tokens ample room₁ s₁ nodes' room' s') :
    Finds limit tokens ample room s (nodes ++ nodes') room' s' := by
  intro hs
  obtain ⟨hs₁, hnodes⟩ := h hs
  obtain ⟨hs', hnodes'⟩ := h' hs₁
  exact ⟨hs', List.forall_mem_append.2 ⟨hnodes, hnodes'⟩⟩

theorem mono (h : Finds limit tokens ample room s nodes room' s') (hsub : ∀ node ∈ nodes', node ∈ nodes) :
    Finds limit tokens ample room s nodes' room' s' := fun hs =>
  ⟨(h hs).1, fun node hnode => (h hs).2 node (hsub node hnode)⟩

/-- Behind a token there is room for as many tokens with a level less. -/
theorem advance (he : s.peek.kind ≠ .eof) : Finds limit tokens ample (room + 1) s [] room s.advance := by
  refine fun hs => ⟨⟨⟨hs.toAlong.advance, s.advance_owed.trans hs.owed⟩, fun hample => ?_⟩, by simp⟩
  have := Parser.length_advance_lt he
  have := hs.room hample
  omega

theorem token : Finds limit tokens ample room s [] room s.advance := by
  refine fun hs => ⟨⟨⟨hs.toAlong.advance, s.advance_owed.trans hs.owed⟩, fun hample => ?_⟩, by simp⟩
  exact Nat.lt_of_le_of_lt (Nat.add_le_add_right (Advances.advance s).length_le 3) (hs.room hample)

/-- More levels are room as well. -/
theorem wide (h : Finds limit tokens ample room s nodes room' s') :
    Finds limit tokens ample room s nodes (room' + 1) s' := fun hs =>
  ⟨⟨(h hs).1.toStands, fun hample => Nat.lt_succ_of_lt ((h hs).1.room hample)⟩, (h hs).2⟩

/-- An expression is found with what it holds. -/
theorem whole {e : Expr} (h : Finds limit tokens ample room s e.inner room' s')
    (he : Roomy tokens ample room s → Roomy tokens ample room' s' → e.Recurs limit tokens ample) :
    Finds limit tokens ample room s e.nodes room' s' := by
  intro hs
  obtain ⟨hs', hnodes⟩ := h hs
  rw [e.nodes_eq_cons]
  exact ⟨hs', List.forall_mem_cons.2 ⟨.inl (he hs hs'), hnodes⟩⟩

/-- The items of a list are found one after another. -/
theorem listed {α : Type} {item : Parser α} {nodesOf : α → List Node} {ends separates : ParseState → Prop}
    (hitem : ∀ {s a s'}, item.run s = (.ok a, s') → Finds limit tokens ample room s (nodesOf a) room s') {as : List α}
    (h : Listed ends separates item s as s') : Finds limit tokens ample room s (as.flatMap nodesOf) room s' := by
  induction h with
  | nil _ => exact refl
  | last _ h _ => exact (hitem h).mono (by simp)
  | more _ h _ _ ih => exact (((hitem h).trans token).trans ih).mono (by simp)

end Finds

namespace Parser

variable {s s' : ParseState} {room : Nat}

/-- Types are found where nothing is owed, whether pairs of types settle or not. -/
theorem recurs_types {nodes : List Node} (htypes : ∀ node ∈ nodes, ∃ t, node = .type t)
    (h : PairsSettle limit tokens → ∀ node ∈ nodes, node.Recurs limit tokens ample) :
    ∀ node ∈ nodes, node.Recurs limit tokens ample := by
  intro node hnode
  obtain ⟨t, rfl⟩ := htypes node hnode
  exact fun hp => h hp _ hnode hp

theorem finds_typeExpr (hroom : room ≤ limit) {t : TypeExpr} (h : (typeExpr limit room 0).run s = (.ok t, s')) :
    Finds limit tokens ample room s t.nodes room s' := by
  intro hs
  refine ⟨hs.of_advances (hs.toAlong.typeExpr h) (keeps_typeExpr limit room ⟨hs.clean, hs.owed⟩ h).owed
    (advances_run (advances_typeExpr limit room 0) h), ?_⟩
  exact recurs_types (type_of_mem_nodes t) fun hp => recurs_typeExpr hp hroom hs.toAlong hs.owed h

theorem finds_typeArgs (hroom : room ≤ limit) {args : List TypeExpr}
    (h : (typeArgs (typeExpr limit room) 0).run s = (.ok args, s')) :
    Finds limit tokens ample room s (typeListNodes args) room s' := by
  intro hs
  have hready := keeps_typeArgs limit room ⟨hs.clean, hs.owed⟩ h
  have hadv := advances_run
    (Alike.advances fun us => Alike.typeArgs (.refl us) (Alike.typeExpr (.refl us) limit room) 0) h
  obtain ⟨-, s₁, hl, -⟩ := (typeArgs_ok (advances_typeExpr limit room)).1 h
  refine ⟨hs.of_advances (hs.toAlong.of_advances (hready.clean.trans hs.clean.symm) hadv) hready.owed hadv, ?_⟩
  refine recurs_types (type_of_mem_typeListNodes args) fun hp => ?_
  exact recurs_typeArgs (fun hs ho h => ⟨hs.typeExpr h, recurs_typeExpr hp hroom hs ho h⟩) hs.toAlong.advance
    ((ParseState.advance_owed _).trans hs.owed) hl

end Parser

end ElleFrontEnd
