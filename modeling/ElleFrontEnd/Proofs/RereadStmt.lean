import ElleFrontEnd.Proofs.RereadChain

/-!
# Statements that are read again

A statement that begins with no word of its own is a declaration where a type and a name can be read, and an expression
otherwise.  Its printed form begins like its source, so that the trial ends alike on both (`rereads_noBinding`).

The header of an `if` or `while` is printed without the parentheses that were around all of it, unless a brace shows or
the condition stands in parentheses itself; either way the same condition is read off it (`rereads_headerCondition`).
The levels are tied together in `replayed_ofRoom`: twice the room is enough for what is printed, since a condition may
get parentheses and `&&` is printed as two operators.
-/

namespace ElleFrontEnd

open Fragment

/-- The printed form of a declaration of a variable, without the semicolon behind it. -/
def Parser.BindingForm.layout (depth : Nat) : Parser.BindingForm → List Fragment
  | .variable binding type n init => bindingLayout binding type n (init.map (Expr.layout depth true))
  | .buffer type n size =>
    type.layout ++ [space, ofName n, mark .lBracket] ++ size.layout depth true ++ [mark .rBracket]

/-- The printed form of an initial value, with the sign before it. -/
def initLayout (depth : Nat) : Option Expr → List Fragment
  | none => []
  | some e => space :: Fragment.op .eq :: space :: e.layout depth true

namespace Parser

variable {s s' u : ParseState} {g G G₂ : Inner} {header : Bool} {limit room limit' room' room₂ : Nat}
  {f : List Fragment}

theorem BindingForm.layout_stmt (form : BindingForm) (span : Span) (depth : Nat) :
    (form.stmt span).layout depth = form.layout depth ++ [mark .semicolon] := by
  match form with
  | .variable binding type n none | .variable binding type n (some init) =>
    rw [BindingForm.stmt, Stmt.layout, BindingForm.layout]
    rfl
  | .buffer type n size =>
    rw [BindingForm.stmt, Stmt.layout, BindingForm.layout]
    simp

/-! ### Expressions where a declaration could stand -/

/-- What follows an expression that makes a statement: its end, or an assignment to it. -/
def endsTarget (k : TokenKind) : Prop := k = .punctuation .semicolon ∨ ∃ form : AssignOp, k = .operator form.operator

theorem endsTarget.ne {k k' : TokenKind} (h : endsTarget k) (hk : k' ≠ .punctuation .semicolon)
    (ho : ∀ op, k' = .operator op → AssignOp.ofOperator? op = none) : k ≠ k' := by
  rintro rfl
  rcases h with h | ⟨form, h⟩
  · exact hk h
  · have := ho _ h
    cases form <;> revert this <;> decide

theorem skim_of_endsTarget {ks : List TokenKind} {k : TokenKind} (h : endsTarget k) : skim (k :: ks) = k :: ks := by
  refine skim_of_ne (h.ne (by simp) ?_) fun hk => absurd hk (h.ne (by simp) (by simp))
  intro op hop
  cases hop
  rfl

section
variable (hr : g.Replayed G limit room limit' room')
include hr

/-- Where no type and name could be read in the source of an expression, none can be read where it is printed. -/
theorem typeAndName_fails {e : Expr} {depth : Nat} (hs : Ready s) (hi : (g.expression header).run s = (.ok e, s'))
    (hno : s.peek.kind = .keyword .fn ∨ (typeAndName g).Fails s) (hf : endsTarget (next f))
    (hlt : ¬ touchesWith (.operator .lt) f) (hu : Faces u (e.layout depth true ++ f)) : (typeAndName G).Fails u := by
  rcases hrun : (typeAndName G).run u with ⟨err | r, v⟩
  · exact ⟨err, v, hrun⟩
  exfalso
  obtain ⟨u₁, ht, hk, -⟩ := typeAndName_ok.1 hrun
  rw [hr.type'] at ht
  have hread := hr.leading.expression hi
  rcases hread.untyped depth f limit' room' 0 u u₁ r.1 hr.room_le (fun _ _ _ => hlt) hu ht with
    hp | hp | ⟨n, ls, f₁, htok, hc, hskim, -⟩
  · simp [hk] at hp
  · simp [hk] at hp
  -- a name follows the stars and brackets, in the printed form and so in the source
  have hname : skim ls = .ident r.2 :: tokens (after f₁) := by
    rw [← hskim]
    exact tokens_of_next (hc.next_of_peek hk (by simp)) (by simp)
  obtain ⟨k, ls₁, hl, -⟩ := (hread.begins depth).opens
  rw [tokens_append, hl, List.cons_append] at htok
  obtain ⟨rfl, rfl⟩ := List.cons.inj htok
  obtain ⟨ks, hks, hleads⟩ := (hread.begins depth).name _ _ hl
  have htf : tokens f = next f :: tokens (after f) := tokens_of_next rfl (hf.ne (by simp) (by simp))
  rcases hleads.skim_cases with ⟨hsk, -⟩ | ⟨a, b, ls', ks', hla, hkb, hshown, -⟩
  · rw [skim_append hsk, htf, skim_of_endsTarget hf] at hname
    exact hf.ne (by simp) (by simp) (List.cons.inj hname).1
  · rw [hla] at hname
    obtain rfl : a = .ident r.2 := (List.cons.inj hname).1
    obtain rfl : .ident r.2 = b := by simpa [Shown] using hshown
    have hn : s.peek.kind = .ident n := ParseState.peek_of_kinds hks
    have hks' : s.advance.kinds = ks := by
      have := ParseState.kinds_of_peek (s := s) (by simp [hn])
      rw [hks] at this
      exact (List.cons.inj this).2.symm
    obtain ⟨r', rfl⟩ : ∃ r', room = r' + 1 := ⟨room - 1, by have := hr.positive hi; omega⟩
    have hlt' : ¬ (s.advance.peek.kind = .operator .lt ∧ s.advance.isAdjacent = true) := by
      rintro ⟨hlt, -⟩
      have := ParseState.kinds_of_peek (s := s.advance) (by simp [hlt])
      rw [hks', hlt] at this
      rw [this] at hkb
      simp [skim] at hkb
    obtain ⟨t, s₁, hrun', hkinds, -⟩ := kinds_of_typeBody (typeExpr limit r') 0 hn hs.owed hlt'
    rw [hks', hkb] at hkinds
    rcases hno with hfn | ⟨err, v', hfail⟩
    · simp [hn] at hfn
    · have : (typeAndName g).run s = (.ok (t, r.2), s₁.advance) :=
        typeAndName_ok.2 ⟨s₁, by rw [hr.leading.type]; exact hrun', ParseState.peek_of_kinds hkinds, rfl⟩
      simp [this] at hfail

/-- A printed expression begins like no declaration with a word or a name of its own, if its source did not. -/
theorem not_letOrWalrus {e : Expr} {depth : Nat} (hi : (g.expression header).run s = (.ok e, s'))
    (hno : ¬ atLetOrWalrus s) (hf : endsTarget (next f)) (hu : Faces u (e.layout depth true ++ f)) :
    ¬ atLetOrWalrus u := by
  have hread := hr.leading.expression hi
  obtain ⟨a, ls, b, ks, hls, hks, hshown, hopen⟩ := (hread.begins depth).head
  have hgt : a ≠ .operator .gt := by
    rintro rfl
    simp [opensOperand] at hopen
  have he : a ≠ .eof := by
    rintro rfl
    simp [opensOperand] at hopen
  have hn : next (e.layout depth true ++ f) = a := next_append hls f
  have hp : u.peek.kind = a := by rw [hu.peek (by rwa [hn]), hn]
  rintro (hk | ⟨hid, hk⟩)
  · rw [hp] at hk
    simp [hk, opensOperand] at hopen
  · obtain ⟨n, rfl⟩ : ∃ n, a = .ident n := by
      rw [hp] at hid
      cases a <;> simp [TokenKind.ident?] at hid ⊢
    rw [ParseState.kindAt_one (by rw [hp]; exact he)] at hk
    have hadv := hu.advance (by rw [hn]; simp) (by rw [hn]; simp)
    have ho : u.advance.owed = 0 := by
      rw [ParseState.advance_owed]
      exact hu.owed (by rw [hn]; simp)
    have hnext := hadv.next_of_peek ho hk (by simp)
    have htok : ls ++ tokens f = .operator .colonEq :: tokens (after (after (e.layout depth true ++ f))) := by
      have h₁ := tokens_of_next hn (by simp)
      rw [tokens_append, hls, List.cons_append, tokens_of_next hnext (by simp)] at h₁
      exact (List.cons.inj h₁).2
    obtain ⟨ks', hks', hleads⟩ := (hread.begins depth).name _ _ hls
    cases ls with
    | nil =>
      rw [List.nil_append, tokens_of_next rfl (hf.ne (by simp) (by simp))] at htok
      exact hf.ne (by simp) (by rintro op hop; cases hop; rfl) (List.cons.inj htok).1
    | cons c ls =>
      obtain rfl : c = .operator .colonEq := (List.cons.inj htok).1
      cases hleads with
      | first hfore =>
        obtain rfl : TokenKind.operator .colonEq = _ := by simpa [Shown] using hfore.shown
        have hs₀ : s.peek.kind = .ident n := ParseState.peek_of_kinds hks'
        refine hno (.inr ⟨by simp [hs₀, TokenKind.ident?], ?_⟩)
        rw [ParseState.kindAt_one (by simp [hs₀])]
        have := ParseState.kinds_of_peek (s := s) (by simp [hs₀])
        rw [hks'] at this
        exact ParseState.peek_of_kinds (List.cons.inj this).2.symm

/-- An expression that was read where a declaration could stand is printed without looking like one. -/
theorem rereads_noBinding {e : Expr} {depth : Nat} {header' : Bool} (hs : Ready s)
    (hb : (binding? g header).run s = (.ok none, s)) (hi : (g.expression header).run s = (.ok e, s'))
    (hf : endsTarget (next f)) (hlt : ¬ touchesWith (.operator .lt) f) (hu : Faces u (e.layout depth true ++ f)) :
    (binding? G header').run u = (.ok none, u) := by
  obtain ⟨-, hno, hfail⟩ := (binding?_none hr.settled).1 hb
  exact (binding?_none hr.settled').2 ⟨rfl, not_letOrWalrus hr hi hno hf hu,
    .inr (typeAndName_fails hr hs hi (hfail.imp_left (·.1)) hf hlt hu)⟩

/-! ### Declarations of variables -/

/-- An initial value is read again. -/
theorem rereads_initializer {init : Option Expr} {depth : Nat} (hs : Ready s)
    (h : (initializer g header).run s = (.ok init, s')) (hf : next f = .punctuation .semicolon)
    (hu : Clear u (initLayout depth init ++ f)) :
    ∃ init' u', (initializer G false).run u = (.ok init', u') ∧ OptionRel SameExpr init init' ∧ Clear u' f := by
  rcases initializer_ok.1 h with ⟨-, e, rfl, he⟩ | ⟨-, rfl, rfl⟩
  · obtain ⟨hk, hc⟩ := Clear.between hu
    obtain ⟨e', u', hrun, hsame, hc'⟩ :=
      RereadsExpr.inside (hr.expression hs.advance he) (by rw [hf]; rfl) (by simp [hf])
      hc.space
    exact ⟨some e', u', initializer_ok.2 (.inl ⟨hk, e', rfl, hrun⟩), hsame, hc'⟩
  · refine ⟨none, u, initializer_ok.2 (.inr ⟨fun hk => ?_, rfl, rfl⟩), trivial, hu⟩
    have := hu.next_of_peek hk (by simp)
    simp [initLayout, hf] at this

/-- A declaration of a variable is read again. -/
theorem rereads_binding {form : BindingForm} {depth : Nat} (hs : Ready s)
    (h : (binding? g header).run s = (.ok (some form), s')) (hf : next f = .punctuation .semicolon)
    (hu : Faces u (form.layout depth ++ f)) :
    ∃ form' u', (binding? G false).run u = (.ok (some form'), u') ∧ SameBinding form form' ∧ Clear u' f := by
  rcases (binding?_some hr.settled).1 h with ⟨-, n, init, -, hinit, rfl⟩ | ⟨-, n, e, -, he, rfl⟩ |
    ⟨-, -, ⟨type, n⟩, s₁, htn, hform⟩
  · have hu : Faces u (word .letKw :: space :: ofName n :: (initLayout depth init ++ f)) := by
      cases init <;> exact hu
    obtain ⟨hk, hc⟩ := hu.word
    obtain ⟨hk₁, hc⟩ := hc.space.name
    obtain ⟨init', u', hrun, hsame, hc'⟩ := rereads_initializer hr hs.advance.advance hinit hf hc
    exact ⟨_, u', (binding?_some hr.settled').2 (.inl ⟨hk, n, init', hk₁, hrun, rfl⟩),
      .inl ⟨_, _, _, _, rfl, _, _, rfl, trivial, hsame⟩, hc'⟩
  · have hu : Faces u (ofName n :: space :: Fragment.op .colonEq :: space :: (e.layout depth true ++ f)) := hu
    obtain ⟨hk, hc⟩ := hu.name
    obtain ⟨hk₁, hc⟩ := Clear.between hc
    obtain ⟨e', u', hrun, hsame, hc'⟩ := RereadsExpr.inside (hr.expression hs.advance.advance he) (by rw [hf]; rfl)
      (by simp [hf]) hc.space
    refine ⟨_, u', (binding?_some hr.settled').2 (.inr (.inl ⟨?_, n, e', hk, hrun, rfl⟩)),
      .inl ⟨_, _, _, _, rfl, _, _, rfl, trivial, hsame⟩, hc'⟩
    rw [ParseState.kindAt_one (by simp [hk]), hk₁]
  · obtain ⟨s₀, ht, -, rfl⟩ := typeAndName_ok.1 htn
    have hs₁ := (hr.keeping.type hs ht).advance
    -- the type and the name come first, and are read as such
    have hname {f' : List Fragment} (hu : Faces u (type.layout ++ space :: ofName n :: f')) :
        ∃ type' u', (typeAndName G).run u = (.ok (type', n), u') ∧ SameType type type' ∧ Clear u' f' ∧
          ¬ atLetOrWalrus u ∧ ¬ (u.peek.kind = .keyword .fn ∧ u.kindAt 1 = .punctuation .lParen) := by
      obtain ⟨type', u', hrun, hk, hsame, hc⟩ := rereads_typeAndName hr ht hu
      obtain ⟨hopen, hsecond⟩ := TypeExpr.peek_of_faces hu
      refine ⟨type', _, typeAndName_ok.2 ⟨u', hrun, hk, rfl⟩, hsame, hc, ?_, ?_⟩
      · rintro (hk | ⟨hid, hk⟩)
        · simp [hk, opensType] at hopen
        · rcases hsecond with hp | hp | hp | hp | hp
          · simp [hp, TokenKind.ident?] at hid
          all_goals simp [hp] at hk
      · rintro ⟨hp, hk⟩
        rcases hsecond with h | h | h | h | h
        · simp [h] at hp
        all_goals simp [h] at hk
    rcases typedBinding_ok.1 hform with ⟨-, size, s₂, hsize, -, rfl, rfl⟩ | ⟨-, init, hinit, rfl⟩
    · have hu : Faces u (type.layout ++ space :: ofName n :: mark .lBracket :: (size.layout depth true ++
          mark .rBracket :: f)) := by
        simpa [BindingForm.layout] using hu
      obtain ⟨type', u₁, hrun, hsame, hc, hno, hfn⟩ := hname hu
      obtain ⟨hk, hc⟩ := hc.faces.mark
      obtain ⟨size', u₂, hrun', hsame', hc⟩ :=
        RereadsExpr.inside (hr.expression hs₁.advance hsize) rfl (by simp) hc.faces
      obtain ⟨hk', hc⟩ := hc.faces.mark
      exact ⟨_, _, (binding?_some hr.settled').2 (.inr (.inr ⟨hno, hfn, _, u₁, hrun, typedBinding_ok.2
        (.inl ⟨hk, size', u₂, hrun', hk', rfl, rfl⟩)⟩)), .inr ⟨_, _, _, rfl, _, _, rfl, hsame, hsame'⟩, hc⟩
    · have hu : Faces u (type.layout ++ space :: ofName n :: (initLayout depth init ++ f)) := by
        cases init <;> simpa [BindingForm.layout, bindingLayout, initLayout] using hu
      obtain ⟨type', u₁, hrun, hsame, hc, hno, hfn⟩ := hname hu
      obtain ⟨init', u', hrun', hsame', hc'⟩ := rereads_initializer hr hs₁ hinit hf hc
      refine ⟨_, u', (binding?_some hr.settled').2 (.inr (.inr ⟨hno, hfn, _, u₁, hrun, typedBinding_ok.2
        (.inr ⟨fun hk => ?_, init', hrun', rfl⟩)⟩)), .inl ⟨_, _, _, _, rfl, _, _, rfl, hsame, hsame'⟩, hc'⟩
      have := hc.next_of_peek hk (by simp)
      cases init <;> simp [initLayout, hf] at this

/-- An assignment behind its target is read again. -/
theorem rereads_assignment {op : AssignOp} {value : Expr} {depth : Nat} (hs : Ready s)
    (h : (assignment? g header).run s = (.ok (some (op, value)), s')) (hf : closes (next f) = true)
    (hb : next f ≠ .punctuation .lBrace)
    (hu : Clear u (space :: Fragment.op op.operator :: space :: (value.layout depth true ++ f))) :
    ∃ value' u', (assignment? G false).run u = (.ok (some (op, value')), u') ∧ SameExpr value value' ∧ Clear u' f := by
  obtain ⟨token, hk, hop, hopen, hv⟩ := assignment?_some.1 h
  obtain rfl : op.operator = token := by simpa using List.find?_some hop
  obtain ⟨hk', hc⟩ := Clear.between hu
  obtain ⟨value', u', hrun, hsame, hc'⟩ := RereadsExpr.inside (hr.expression hs.advance hv) hf hb hc.space
  have hopen' := opens_of_faces (opens_layout (hr.leading.expression hv) hopen depth) hc.space
  exact ⟨value', u', assignment?_some.2 ⟨_, hk', hop, hopen', hrun⟩, hsame, hc'⟩

omit hr in
theorem no_assignment (hf : closes (next f) = true) (hu : Clear u f) : (assignment? G false).run u = (.ok none, u) := by
  refine assignment?_none.2 ⟨rfl, fun op hk => ?_⟩
  by_cases hop : op = .shr
  · rw [hop]
    rfl
  · have := hu.next_of_peek hk (by simpa using hop)
    simp [this, closes] at hf

omit hr in
/-- The target of an assignment is followed by what followed it in the source. -/
theorem meets_assignment {op : AssignOp} {value : Expr}
    (h : (assignment? g header).run s = (.ok (some (op, value)), s')) :
    Meets false s (space :: Fragment.op op.operator :: space :: f) := by
  obtain ⟨token, hk, hop, -⟩ := assignment?_some.1 h
  obtain rfl : op.operator = token := by simpa using List.find?_some hop
  exact .of_space ⟨.inl (by simp [hk]), loose_of_ne (by cases op <;> simp [AssignOp.operator]), fun _ => by simp⟩

/-! ### Statements without a word of their own -/

omit hr in
/-- Whether a statement can begin with the token. -/
def opensStatement : TokenKind → Bool
  | .punctuation .rBrace | .punctuation .semicolon | .keyword .elseKw | .operator .gt | .eof => false
  | _ => true

omit hr in
theorem opensStatement_of_operand {k : TokenKind} (h : opensOperand true k = true) :
    opensStatement k = true ∧ opensForm k = false := by
  unfold opensOperand at h
  split at h <;> first | exact ⟨rfl, rfl⟩ | simp at h

omit hr in
theorem opensStatement_of_type {k : TokenKind} (h : opensType k = true) :
    opensStatement k = true ∧ opensForm k = false := by
  unfold opensType at h
  split at h <;> first | exact ⟨rfl, rfl⟩ | simp at h

omit hr in
theorem opens_of_binding (hg : g.Settled) {form : BindingForm} (h : (binding? g header).run s = (.ok (some form), s'))
    (depth : Nat) : ∃ k ks, tokens (form.layout depth) = k :: ks ∧ opensStatement k = true ∧ opensForm k = false := by
  rcases (binding?_some hg).1 h with ⟨-, n, init, -, -, rfl⟩ | ⟨-, n, e, -, -, rfl⟩ | ⟨-, -, ⟨type, n⟩, s₁, -, hform⟩
  · cases init <;> exact ⟨_, _, rfl, rfl, rfl⟩
  · exact ⟨_, _, rfl, rfl, rfl⟩
  · obtain ⟨k, f', hf, hk⟩ := type.layout_cons
    rcases typedBinding_ok.1 hform with ⟨-, size, s₂, -, -, -, rfl⟩ | ⟨-, init, -, rfl⟩
    · simp only [BindingForm.layout, hf, List.cons_append, tokens_token]
      exact ⟨k, _, rfl, opensStatement_of_type hk⟩
    · cases init <;> simp only [BindingForm.layout, bindingLayout, Option.map, hf, List.cons_append, tokens_token] <;>
        exact ⟨k, _, rfl, opensStatement_of_type hk⟩

/-- A declaration, an assignment or an expression is read again before its semicolon. -/
theorem rereads_simpleStatement {form : Span → Stmt} (hs : Ready s)
    (h : (simpleStatement g).run s = (.ok form, s')) (depth : Nat) (span : Span) :
    ∃ f₀, (form span).layout depth = f₀ ++ [mark .semicolon] ∧
      (∃ k ks, tokens f₀ = k :: ks ∧ opensStatement k = true ∧ opensForm k = false) ∧
      ∀ {u : ParseState} {f : List Fragment}, next f = .punctuation .semicolon → Faces u (f₀ ++ f) →
        ∃ form' u', (simpleStatement G).run u = (.ok form', u') ∧ SameForm form form' ∧ Clear u' f := by
  rcases (simpleStatement_ok hr.settled).1 h with ⟨binding, hb, rfl⟩ |
    ⟨hb, target, s₁, ht, ⟨op, value, ha, rfl⟩ | ⟨-, rfl, rfl⟩⟩
  · refine ⟨_, binding.layout_stmt span depth, opens_of_binding hr.settled hb depth, fun hf hu => ?_⟩
    obtain ⟨binding', u', hrun, hsame, hc⟩ := rereads_binding hr hs hb hf hu
    exact ⟨_, u', (simpleStatement_ok hr.settled').2 (.inl ⟨binding', hrun, rfl⟩), hsame.stmt, hc⟩
  · obtain ⟨k, ks, hk, hopen⟩ := ((hr.leading.expression ht).begins depth).opens
    refine ⟨assignLayout (target.layout depth true) op (value.layout depth true), by rw [Stmt.layout],
      ⟨k, _, by rw [assignLayout, List.append_assoc, tokens_append, hk]; rfl, opensStatement_of_operand hopen⟩,
      fun {u f} hf hu => ?_⟩
    simp only [assignLayout, List.append_assoc, List.cons_append, List.nil_append] at hu
    have hno : (binding? G false).run u = (.ok none, u) :=
      rereads_noBinding hr hs hb ht (.inr ⟨op, rfl⟩) (by simp [touchesWith]) hu
    obtain ⟨target', u₁, hrun, hsame, hc⟩ := hr.expression hs ht depth false u _ .of_false (meets_assignment ha) hu
    obtain ⟨value', u', hrun', hsame', hc'⟩ :=
      rereads_assignment hr (hr.keeping.expression false hs ht) ha (by rw [hf]; rfl)
      (by simp [hf]) hc
    exact ⟨_, u', (simpleStatement_ok hr.settled').2 (.inr ⟨hno, target', u₁, hrun, .inl ⟨op, value', hrun', rfl⟩⟩),
      fun _ _ => congrArg₂ (Stmt.assign .zero · op ·) hsame hsame', hc'⟩
  · obtain ⟨k, ks, hk, hopen⟩ := ((hr.leading.expression ht).begins depth).opens
    refine ⟨target.layout depth true, by rw [Stmt.layout], ⟨k, ks, hk, opensStatement_of_operand hopen⟩,
      fun {u f} hf hu => ?_⟩
    have hno : (binding? G false).run u = (.ok none, u) :=
      rereads_noBinding hr hs hb ht (.inl hf) (by simp [touchesWith, hf]) hu
    obtain ⟨target', u', hrun, hsame, hc⟩ :=
      RereadsExpr.inside (hr.expression hs ht) (by rw [hf]; rfl) (by simp [hf]) hu
    exact ⟨_, u', (simpleStatement_ok hr.settled').2 (.inr ⟨hno, target', u', hrun, .inr
      ⟨no_assignment (by rw [hf]; rfl) hc, rfl, rfl⟩⟩), fun _ _ => congrArg (Stmt.expr .zero) hsame, hc⟩

/-! ### Conditions -/

omit hr in
theorem SameExpr.unparenthesized {e e' : Expr} (h : SameExpr e e') : SameExpr e.unparenthesized e'.unparenthesized := by
  have h : e.mapSpans noSpan = e'.mapSpans noSpan := h
  change e.unparenthesized.mapSpans noSpan = e'.unparenthesized.mapSpans noSpan
  rw [← unparenthesized_mapSpans, h, unparenthesized_mapSpans]

omit hr in
theorem isParen_of_same {e e' : Expr} (h : SameExpr e e') : e'.isParen = e.isParen := by
  have hmap (e : Expr) : (e.mapSpans noSpan).isParen = e.isParen := by
    cases e with
    | conditional s c o a => cases o <;> rfl
    | sigil s n o => cases o <;> rfl
    | _ => rfl
  have h : e.mapSpans noSpan = e'.mapSpans noSpan := h
  rw [← hmap e, h, hmap]

omit hr in
theorem unparenthesized_of_not {e : Expr} (h : e.isParen = false) : e.unparenthesized = e := by
  cases e <;> first | rfl | simp [Expr.isParen] at h

omit hr in
/-- A brace among the tokens shows in the text. -/
theorem not_lBrace_of_text {f : List Fragment} (h : f.any (fun a => (a.text 0).toList.contains '{') = false) :
    TokenKind.punctuation .lBrace ∉ tokens f := by
  intro hm
  obtain ⟨a, ha, hk⟩ := List.mem_filterMap.1 hm
  cases a with
  | token k =>
    obtain rfl : k = .punctuation .lBrace := by simpa [token?] using hk
    have := List.any_eq_false.1 h _ ha
    revert this
    decide
  | space | line => simp [token?] at hk

/-- A condition in parentheses that the printer has added. -/
theorem rereads_wrapped (hin : G₂.Under G) {e : Expr} {depth : Nat} (hs : Ready s)
    (h : (g.expression header).run s = (.ok e, s')) (hf : next f = .punctuation .lBrace)
    (hu : Faces u (parens (e.layout depth true) ++ f)) :
    ∃ span e' u', (G₂.expression true).run u = (.ok (.paren span e'), u') ∧ SameExpr e e' ∧ Clear u' f := by
  simp only [parens, List.cons_append, List.append_assoc, List.nil_append] at hu
  obtain ⟨hk, hc⟩ := hu.mark
  obtain ⟨e', u₁, hrun, hsame, hc₁⟩ := RereadsExpr.inside (hr.expression hs h) rfl (by simp) hc.faces
  obtain ⟨hk₁, hc₂⟩ := hc₁.faces.mark
  have hp : u₁.advance.peek.kind = .punctuation .lBrace := by rw [hc₂.fragments.peek (by simp [hf]), hf]
  have hno : NoCast G u := by
    rcases hcast : (castType G).run u.advance with ⟨err | t, v⟩
    · exact .inl ⟨err, v, hcast⟩
    · refine .inr ⟨t, v, hcast, ?_⟩
      rcases (castType_printed hr h hc.faces hcast).1 with hv | hv
      · rw [hv, hf]
        rfl
      · rw [hv]
        rfl
  have hprimary : (primary G true).run u = _ :=
    primary_ok.2 (.inr (.inr (.inr (.inl ⟨hk, parenthesized_ok.2 ⟨e', u₁, hrun, hk₁, rfl, rfl⟩⟩))))
  have hoperand : (operandExpr G true).run u = _ := (operandExpr_ok hr.settled').2 ⟨_, _, hprimary,
    .stop ((suffixStep_none hr.settled').2 ⟨rfl, by simp [hp], by simp [hp], by simp [hp], by simp [hp]⟩)⟩
  have hunary : (unaryBody G true).run u = _ :=
    (unaryBody_ok hr.settled').2 (.inr (.inr (.inr ⟨fun _ => hno, by simp [hk], hoperand⟩)))
  have hchain : (chainBody G true 1).run u = _ := (chainBody_ok hr.settled').2 ⟨_, _, hunary,
    .stop (chainStep_none.2 ⟨rfl, by simp [hp]⟩)⟩
  refine ⟨u₁.advance.spanFrom u.peek.span.start, e', u₁.advance, ?_, hsame, hc₂⟩
  rw [hin.expression]
  exact expressionBody_ok.2 ⟨_, _, hchain, .inl ⟨by simp [hp], rfl, rfl⟩⟩

end

section
variable (hr : g.Replayed G limit room limit' room') (hin : G.Under G₂) (hr₂ : g.Replayed G₂ limit room limit' room₂)
include hr hin hr₂

/-- The condition of an `if` or `while` is read again before the brace of the body. -/
theorem rereads_headerCondition {e : Expr} {depth : Nat} (hs : Ready s) (h : (headerCondition g).run s = (.ok e, s'))
    (hf : next f = .punctuation .lBrace) (hu : Faces u (headerLayout e (e.layout depth true) ++ f)) :
    ∃ e' u', (headerCondition G).run u = (.ok e', u') ∧ SameExpr e e' ∧ Clear u' f := by
  obtain ⟨e₀, h₀, rfl⟩ := headerCondition_ok.1 h
  have hmeets {s : ParseState} : Meets true s f := .of_closes (by rw [hf]; rfl) (by simp)
  rw [headerLayout] at hu
  split at hu
  · rename_i hgroup
    cases hp : e₀.isParen with
    | false =>
      rw [unparenthesized_of_not hp] at hu ⊢
      obtain ⟨span, e', u', hrun, hsame, hc⟩ := rereads_wrapped hr₂ hin hs h₀ hf hu
      exact ⟨e', u', headerCondition_ok.2 ⟨_, hrun, rfl⟩, hsame, hc⟩
    | true =>
      obtain ⟨span, e, rfl⟩ : ∃ span e, e₀ = .paren span e := by
        cases e₀ <;> first | exact ⟨_, _, rfl⟩ | simp [Expr.isParen] at hp
      have hread := hr.expression hs h₀ depth true u f (fun _ => .inl rfl) hmeets
      rw [Expr.layout] at hread
      obtain ⟨e', u', hrun, hsame, hc⟩ := hread hu
      exact ⟨_, u', headerCondition_ok.2 ⟨e', hrun, rfl⟩, SameExpr.unparenthesized hsame, hc⟩
  · rename_i hgroup
    simp only [Bool.or_eq_true, not_or, Bool.not_eq_true] at hgroup
    obtain ⟨hplain, hbrace⟩ := hgroup
    have hadmits {header : Bool} : Admits header true (tokens (e₀.unparenthesized.layout depth true)) :=
      fun _ => .inr (not_lBrace_of_text hbrace)
    have hread : ∃ e' u', (G.expression true).run u = (.ok e', u') ∧ SameExpr e₀.unparenthesized e' ∧ Clear u' f := by
      cases hp : e₀.isParen with
      | false =>
        rw [unparenthesized_of_not hp] at hu ⊢
        exact hr.expression hs h₀ depth true u f (fun _ => .inl rfl) hmeets hu
      | true =>
        obtain ⟨span, e, rfl⟩ : ∃ span e, e₀ = .paren span e := by
          cases e₀ <;> first | exact ⟨_, _, rfl⟩ | simp [Expr.isParen] at hp
        obtain ⟨s₁, hread⟩ := hr.unwrapped hs h₀
        exact hread depth true u f hadmits hmeets hu
    obtain ⟨e', u', hrun, hsame, hc⟩ := hread
    refine ⟨e', u', headerCondition_ok.2 ⟨e', hrun, ?_⟩, hsame, hc⟩
    rw [unparenthesized_of_not (by rw [isParen_of_same hsame, hplain])]

end

theorem Block.layout_cons (body : Block) (depth : Nat) : ∃ f, body.layout depth = mark .lBrace :: f := by
  obtain ⟨span, ss⟩ := body
  rw [Block.layout, braces]
  split <;> exact ⟨_, rfl⟩

theorem next_block (body : Block) (depth : Nat) (f : List Fragment) :
    next (body.layout depth ++ f) = .punctuation .lBrace := by
  obtain ⟨f', h⟩ := Block.layout_cons body depth
  rw [h, List.cons_append, next_token]

section
variable (hr : g.Replayed G limit room limit' room')
include hr

/-- What follows the block of an `if` is read again. -/
theorem rereads_elsePart {o : Else} {depth : Nat} (hs : Ready s) (h : (elsePart g).run s = (.ok o, s'))
    (hf : next f ≠ .keyword .elseKw) (hu : Clear u (o.layout depth ++ f)) :
    ∃ o' u', (elsePart G).run u = (.ok o', u') ∧ Same (Else.mapSpans noSpan) o o' ∧ Clear u' f := by
  rcases elsePart_ok.1 h with ⟨-, -, parts, hp, rfl⟩ | ⟨-, -, body, hb, rfl⟩ | ⟨-, rfl, rfl⟩
  · have hu : Clear u (space :: word .elseKw :: space :: (parts.layout depth ++ f)) := by
      simpa [Else.layout, elseWord, IfParts.layout] using hu
    obtain ⟨hk, hc⟩ := hu.space.word
    obtain ⟨parts', u', hrun, hsame, hc'⟩ := hr.elseIf hs.advance hp hf hc.space
    have hif : u.advance.peek.kind = .keyword .ifKw := by
      rw [hc.space.peek (by simp [IfParts.layout, ifLayout])]
      simp [IfParts.layout, ifLayout]
    refine ⟨_, u', elsePart_ok.2 (.inl ⟨hk, hif, parts', hrun, rfl⟩), ?_, hc'⟩
    change Else.elseIf .zero _ _ _ = Else.elseIf .zero _ _ _
    rw [hsame.condition, hsame.body, hsame.otherwise]
  · have hu : Clear u (space :: word .elseKw :: space :: (body.layout depth ++ f)) := by
      simpa [Else.layout, elseWord] using hu
    obtain ⟨hk, hc⟩ := hu.space.word
    obtain ⟨body', u', hrun, hsame, hc'⟩ := hr.block hs.advance hb hc.space
    have hbrace : u.advance.peek.kind = .punctuation .lBrace := by
      rw [hc.space.peek (by rw [next_block]; simp), next_block]
    exact ⟨_, u', elsePart_ok.2 (.inr (.inl ⟨hk, by simp [hbrace], body', hrun, rfl⟩)), congrArg Else.block hsame, hc'⟩
  · rw [Else.layout, List.nil_append] at hu
    exact ⟨_, u, elsePart_ok.2 (.inr (.inr ⟨fun hk => hf (hu.next_of_peek hk (by simp)), rfl, rfl⟩)), rfl, hu⟩

/-! ### Loops -/

/-- What a `for` loop starts with is read again. -/
theorem rereads_forInit {init : ForInit} {depth : Nat} (hs : Ready s) (h : (forInit g header).run s = (.ok init, s'))
    (hf : next f = .punctuation .semicolon) (hu : Faces u (init.layout depth ++ f)) :
    ∃ init' u', (forInit G false).run u = (.ok init', u') ∧ Same (ForInit.mapSpans noSpan) init init' ∧ Clear u' f := by
  rcases (forInit_ok hr.settled).1 h with ⟨binding, type, n, value, hb, rfl⟩ | ⟨hb, e, he, rfl⟩
  · have hu : Faces u ((BindingForm.variable binding type n value).layout depth ++ f) := by
      cases value <;> simpa only [ForInit.layout, BindingForm.layout, Option.map] using hu
    obtain ⟨form', u', hrun, hsame, hc⟩ := rereads_binding hr hs hb hf hu
    rcases hsame with ⟨_, _, _, _, heq, type', value', rfl, ht, hv⟩ | ⟨_, _, _, heq, -⟩
    · cases heq
      exact ⟨_, u', (forInit_ok hr.settled').2 (.inl ⟨_, _, _, _, hrun, rfl⟩), sameInit_varDecl ht hv _ _, hc⟩
    · cases heq
  · rw [ForInit.layout] at hu
    have hno : (binding? G false).run u = (.ok none, u) :=
      rereads_noBinding hr hs hb he (.inl hf) (by simp [touchesWith, hf]) hu
    obtain ⟨e', u', hrun, hsame, hc⟩ := RereadsExpr.inside (hr.expression hs he) (by rw [hf]; rfl) (by simp [hf]) hu
    exact ⟨_, u', (forInit_ok hr.settled').2 (.inr ⟨hno, e', hrun, rfl⟩), congrArg ForInit.expr hsame, hc⟩

/-- What a `for` loop does after each round is read again. -/
theorem rereads_forStep {step : ForStep} {depth : Nat} (hs : Ready s) (h : (forStep g header).run s = (.ok step, s'))
    (hf : next f = .punctuation .rParen) (hu : Faces u (step.layout depth ++ f)) :
    ∃ step' u', (forStep G false).run u = (.ok step', u') ∧ Same (ForStep.mapSpans noSpan) step step' ∧ Clear u' f := by
  obtain ⟨target, s₁, ht, ⟨op, value, ha, rfl⟩ | ⟨-, rfl, rfl⟩⟩ := forStep_ok.1 h
  · simp only [ForStep.layout, assignLayout, List.append_assoc, List.cons_append, List.nil_append] at hu
    obtain ⟨target', u₁, hrun, hsame, hc⟩ := hr.expression hs ht depth false u _ .of_false (meets_assignment ha) hu
    obtain ⟨value', u', hrun', hsame', hc'⟩ := rereads_assignment hr (hr.keeping.expression header hs ht) ha
      (by rw [hf]; rfl) (by simp [hf]) hc
    exact ⟨_, u', forStep_ok.2 ⟨target', u₁, hrun, .inl ⟨op, value', hrun', rfl⟩⟩,
      congrArg₂ (ForStep.assign .zero · op ·) hsame hsame', hc'⟩
  · rw [ForStep.layout] at hu
    obtain ⟨target', u', hrun, hsame, hc⟩ :=
      RereadsExpr.inside (hr.expression hs ht) (by rw [hf]; rfl) (by simp [hf]) hu
    exact ⟨_, u', forStep_ok.2 ⟨target', u', hrun, .inr ⟨no_assignment (by rw [hf]; rfl) hc, rfl, rfl⟩⟩,
      congrArg ForStep.expr hsame, hc⟩

/-- The header of a `for` loop is read again in parentheses, whether it had any or not. -/
theorem rereads_forHeader {init : ForInit} {condition : Expr} {step : ForStep} {depth : Nat} (hs : Ready s)
    (h : (forHeader g header).run s = (.ok (init, condition, step), s')) (hf : next f = .punctuation .rParen)
    (hu : Faces u (init.layout depth ++ mark .semicolon :: space :: (condition.layout depth true ++ mark .semicolon ::
      space :: (step.layout depth ++ f)))) :
    ∃ parts' u', (forHeader G false).run u = (.ok parts', u') ∧ Alike.SameHeader (init, condition, step) parts' ∧
      Clear u' f := by
  obtain ⟨s₁, s₂, hi, hk₁, hc, hk₂, hst⟩ := forHeader_ok.1 h
  have hs₁ : Ready s₁ := by
    rcases (forInit_ok hr.settled).1 hi with ⟨_, _, _, _, hb, -⟩ | ⟨-, e, he, -⟩
    · exact keeps_binding? hr.settled hr.keeping hs hb
    · exact hr.keeping.expression header hs he
  obtain ⟨init', u₁, hrun, hsame, hc₁⟩ := rereads_forInit hr hs hi rfl hu
  obtain ⟨hm, hc₂⟩ := hc₁.faces.mark
  obtain ⟨condition', u₂, hrun', hsame', hc₃⟩ :=
    RereadsExpr.inside (hr.expression hs₁.advance hc) rfl (by simp) hc₂.space
  obtain ⟨hm', hc₄⟩ := hc₃.faces.mark
  obtain ⟨step', u', hrun'', hsame'', hc'⟩ :=
    rereads_forStep hr (hr.keeping.expression header hs₁.advance hc).advance hst hf hc₄.space
  exact ⟨(init', condition', step'), u', forHeader_ok.2 ⟨u₁, u₂, hrun, hm, hrun', hm', hrun''⟩,
    ⟨hsame, hsame', hsame''⟩, hc'⟩

end

/-! ### Statements -/

/-- A statement opens with a token that is not one of those behind it, and is read again wherever no `else` follows. -/
structure RereadsForm (p : Parser (Span → Stmt)) (form : Span → Stmt) : Prop where
  opens : ∀ depth span, ∃ k ks, tokens ((form span).layout depth) = k :: ks ∧ opensStatement k = true
  rereads : ∀ {depth span} {u : ParseState} {f : List Fragment}, next f ≠ .keyword .elseKw →
    Faces u ((form span).layout depth ++ f) → ∃ form' u', p.run u = (.ok form', u') ∧ SameForm form form' ∧ Clear u' f

section
variable (hr : g.Replayed G limit room limit' room')
include hr

theorem rereads_forStatement {form : Span → Stmt} (hs : Ready s) (h : (forStatement g).run s = (.ok form, s')) :
    RereadsForm (forStatement G) form := by
  obtain ⟨-, ⟨n, iterable, s₁, body, -, -, he, hb, rfl⟩ | ⟨-, hloop⟩⟩ := forStatement_ok.1 h
  · refine ⟨fun depth span => ⟨_, _, by rw [Stmt.layout]; rfl, rfl⟩, fun {depth span u f} _ hu => ?_⟩
    simp only [Stmt.layout, List.cons_append, List.append_assoc, List.nil_append] at hu
    obtain ⟨hk, hc⟩ := hu.word
    obtain ⟨hn, hc₁⟩ := hc.space.name
    obtain ⟨hin, hc₂⟩ := hc₁.space.word
    obtain ⟨iterable', u₁, hrun, hsame, hc₃⟩ := hr.expression hs.advance.advance.advance he depth true _ _
      (fun _ => .inl rfl) (.of_closes (by rw [next_space, next_block]; rfl) (by simp)) hc₂.space
    obtain ⟨body', u', hrun', hsame', hc'⟩ := hr.block (hr.keeping.expression true hs.advance.advance.advance he) hb
      hc₃.space
    refine ⟨_, u', forStatement_ok.2 ⟨hk, .inl ⟨n, iterable', u₁, body', hn, ?_, hrun, hrun', rfl⟩⟩,
      fun _ _ => congrArg₂ (Stmt.forEach .zero n) hsame hsame', hc'⟩
    rw [ParseState.kindAt_one (by simp [hn]), hin]
  · obtain ⟨init, condition, step, body, rfl, hforms⟩ := forLoopRest_ok.1 hloop
    have hsource : ∃ header s₀ s₁ s₂, Ready s₀ ∧ (forHeader g header).run s₀ = (.ok (init, condition, step), s₁) ∧
        Ready s₂ ∧ g.block.run s₂ = (.ok body, s') := by
      rcases hforms with ⟨-, s₁, hh, -, hb⟩ | ⟨-, s₁, hh, hb⟩
      · exact ⟨false, _, s₁, _, hs.advance.advance, hh,
        (keeps_forHeader hr.settled hr.keeping hs.advance.advance hh).advance, hb⟩
      · exact ⟨true, _, s₁, _, hs.advance, hh, keeps_forHeader hr.settled hr.keeping hs.advance hh, hb⟩
    obtain ⟨header, s₀, s₁, s₂, hs₀, hh, hs₂, hb⟩ := hsource
    refine ⟨fun depth span => ⟨_, _, by rw [Stmt.layout]; rfl, rfl⟩, fun {depth span u f} _ hu => ?_⟩
    simp only [Stmt.layout, parens, List.cons_append, List.append_assoc, List.nil_append] at hu
    obtain ⟨hk, hc⟩ := hu.word
    obtain ⟨hopen, hc₁⟩ := hc.space.mark
    obtain ⟨⟨init', condition', step'⟩, u₁, hrun, hsame, hc₂⟩ := rereads_forHeader hr hs₀ hh rfl hc₁.faces
    obtain ⟨hclose, hc₃⟩ := hc₂.faces.mark
    obtain ⟨body', u', hrun', hsame', hc'⟩ := hr.block hs₂ hb hc₃.space
    refine ⟨_, u', forStatement_ok.2 ⟨hk, .inr ⟨by simp [hopen, TokenKind.ident?], forLoopRest_ok.2
      ⟨init', condition', step', body', rfl, .inl ⟨hopen, u₁, hrun, hclose, hrun'⟩⟩⟩⟩, fun _ _ => ?_, hc'⟩
    change Stmt.forLoop .zero _ _ _ _ = Stmt.forLoop .zero _ _ _ _
    rw [hsame.1, hsame.2.1, hsame.2.2, hsame']

theorem rereads_returnStatement {form : Span → Stmt} (hs : Ready s) (h : (returnStatement g).run s = (.ok form, s')) :
    (∀ depth span, ∃ f, (form span).layout depth = word .returnKw :: f) ∧ RereadsForm (returnStatement G) form := by
  rcases returnStatement_ok.1 h with ⟨-, -, rfl⟩ | ⟨-, e, s₁, he, -, -, rfl⟩
  · refine ⟨fun depth span => ⟨_, by rw [Stmt.layout]⟩, fun depth span => ⟨_, _, by rw [Stmt.layout]; rfl, rfl⟩,
      fun {depth span u f} _ hu => ?_⟩
    simp only [Stmt.layout, List.cons_append, List.nil_append] at hu
    obtain ⟨hk, hc⟩ := hu.word
    obtain ⟨hk₁, hc₁⟩ := hc.faces.mark
    exact ⟨_, _, returnStatement_ok.2 (.inl ⟨hk₁, rfl, rfl⟩), fun _ _ => rfl, hc₁⟩
  · refine ⟨fun depth span => ⟨_, by rw [Stmt.layout]; rfl⟩, fun depth span => ⟨_, _, by rw [Stmt.layout]; rfl, rfl⟩,
      fun {depth span u f} _ hu => ?_⟩
    simp only [Stmt.layout, List.cons_append, List.append_assoc, List.nil_append] at hu
    obtain ⟨hk, hc⟩ := hu.word
    obtain ⟨e', u', hrun, hsame, hc₁⟩ := RereadsExpr.inside (hr.expression hs.advance he) rfl (by simp) hc.space
    obtain ⟨hk₁, hc₂⟩ := hc₁.faces.mark
    refine ⟨_, _, returnStatement_ok.2 (.inr ⟨?_, e', u', hrun, hk₁, rfl, rfl⟩),
      fun _ _ => congrArg (fun e => Stmt.returnValue .zero (some e)) hsame, hc₂⟩
    obtain ⟨k, ks, htok, hopen⟩ := ((hr.leading.expression he).begins depth).opens
    intro hsemi
    have := hc.space.peek (by rw [next_append htok]; rintro rfl; simp [opensOperand] at hopen)
    rw [hsemi, next_append htok] at this
    simp [← this, opensOperand] at hopen

variable (hin : G.Under G₂) (hr₂ : g.Replayed G₂ limit room limit' room₂)
include hin hr₂

/-- An `if` is read again with all its branches. -/
theorem rereads_ifBody {parts : IfParts} {depth : Nat} (hs : Ready s) (h : (ifBody g).run s = (.ok parts, s'))
    (hf : next f ≠ .keyword .elseKw) (hu : Faces u (parts.layout depth ++ f)) :
    ∃ parts' u', (ifBody G).run u = (.ok parts', u') ∧ SameIf parts parts' ∧ Clear u' f := by
  obtain ⟨-, s₁, s₂, hcond, hb, he⟩ := ifBody_ok.1 h
  have hs₁ := keeps_headerCondition hr.keeping hs.advance hcond
  have hs₂ := hr.keeping.block hs₁ hb
  simp only [IfParts.layout, ifLayout, List.cons_append, List.append_assoc, List.nil_append] at hu
  obtain ⟨hk, hc⟩ := hu.word
  obtain ⟨condition', u₁, hrun, hsame, hc₁⟩ := rereads_headerCondition hr hin hr₂ hs.advance hcond
    (by rw [next_space, next_block]) hc.space
  obtain ⟨body', u₂, hrun', hsame', hc₂⟩ := hr.block hs₁ hb hc₁.space
  obtain ⟨otherwise', u', hrun'', hsame'', hc'⟩ := rereads_elsePart hr hs₂ he hf hc₂
  exact ⟨⟨condition', body', otherwise'⟩, u', ifBody_ok.2 ⟨hk, u₁, u₂, hrun, hrun', hrun''⟩, ⟨hsame, hsame', hsame''⟩,
    hc'⟩

/-- Statements of each form are read again. -/
theorem rereads_statementForm {form : Span → Stmt} (hs : Ready s) (h : (statementForm g).run s = (.ok form, s')) :
    RereadsForm (statementForm G) form := by
  rcases statementForm_ok.1 h with ⟨-, parts, hp, rfl⟩ | ⟨-, condition, s₁, body, hcond, hb, rfl⟩ | ⟨-, hfor⟩ |
    ⟨-, e, s₁, he, -, -, rfl⟩ | ⟨-, hret⟩ | ⟨-, -, -, rfl⟩ | ⟨-, -, -, rfl⟩ | ⟨-, body, hb, rfl⟩ |
      ⟨-, s₁, hsimple, -, -⟩
  · refine ⟨fun depth span => ⟨_, _, by rw [Stmt.layout]; rfl, rfl⟩, fun {depth span u f} hf hu => ?_⟩
    have hu : Faces u (parts.layout depth ++ f) := by simpa only [Stmt.layout, IfParts.layout] using hu
    obtain ⟨parts', u', hrun, hsame, hc⟩ := rereads_ifBody hr hin hr₂ hs hp hf hu
    refine ⟨_, u', statementForm_ok.2 (.inl ⟨(ifBody_ok.1 hrun).1, parts', hrun, rfl⟩), fun _ _ => ?_, hc⟩
    change Stmt.ifElse .zero _ _ _ = Stmt.ifElse .zero _ _ _
    rw [hsame.condition, hsame.body, hsame.otherwise]
  · refine ⟨fun depth span => ⟨_, _, by rw [Stmt.layout]; rfl, rfl⟩, fun {depth span u f} _ hu => ?_⟩
    simp only [Stmt.layout, List.cons_append, List.append_assoc, List.nil_append] at hu
    obtain ⟨hk, hc⟩ := hu.word
    obtain ⟨condition', u₁, hrun, hsame, hc₁⟩ := rereads_headerCondition hr hin hr₂ hs.advance hcond
      (by rw [next_space, next_block]) hc.space
    obtain ⟨body', u', hrun', hsame', hc'⟩ := hr.block (keeps_headerCondition hr.keeping hs.advance hcond) hb hc₁.space
    exact ⟨_, u', statementForm_ok.2 (.inr (.inl ⟨hk, condition', u₁, body', hrun, hrun', rfl⟩)),
      fun _ _ => congrArg₂ (Stmt.whileLoop .zero) hsame hsame', hc'⟩
  · obtain ⟨hopens, hread⟩ := rereads_forStatement hr hs hfor
    refine ⟨hopens, fun hf hu => ?_⟩
    obtain ⟨form', u', hrun, hsame, hc⟩ := hread hf hu
    exact ⟨form', u', statementForm_ok.2 (.inr (.inr (.inl ⟨(forStatement_ok.1 hrun).1, hrun⟩))), hsame, hc⟩
  · refine ⟨fun depth span => ⟨_, _, by rw [Stmt.layout]; rfl, rfl⟩, fun {depth span u f} _ hu => ?_⟩
    simp only [Stmt.layout, List.cons_append, List.append_assoc, List.nil_append] at hu
    obtain ⟨hk, hc⟩ := hu.word
    obtain ⟨e', u', hrun, hsame, hc₁⟩ := RereadsExpr.inside (hr.expression hs.advance he) rfl (by simp) hc.space
    obtain ⟨hk₁, hc₂⟩ := hc₁.faces.mark
    exact ⟨_, _, statementForm_ok.2 (.inr (.inr (.inr (.inl ⟨hk, e', u', hrun, hk₁, rfl, rfl⟩)))),
      fun _ _ => congrArg (Stmt.defer .zero) hsame, hc₂⟩
  · obtain ⟨hword, hopens, hread⟩ := rereads_returnStatement hr hs hret
    refine ⟨hopens, fun {depth span u f} hf hu => ?_⟩
    obtain ⟨form', u', hrun, hsame, hc⟩ := hread hf hu
    obtain ⟨f', hf'⟩ := hword depth span
    rw [hf', List.cons_append] at hu
    exact ⟨form', u', statementForm_ok.2 (.inr (.inr (.inr (.inr (.inl ⟨hu.word.1, hrun⟩))))), hsame, hc⟩
  · refine ⟨fun depth span => ⟨_, _, by rw [Stmt.layout]; rfl, rfl⟩, fun {depth span u f} _ hu => ?_⟩
    simp only [Stmt.layout, List.cons_append, List.nil_append] at hu
    obtain ⟨hk, hc⟩ := hu.word
    obtain ⟨hk₁, hc₁⟩ := hc.faces.mark
    exact ⟨_, _, statementForm_ok.2 (.inr (.inr (.inr (.inr (.inr (.inl ⟨hk, hk₁, rfl, rfl⟩)))))), fun _ _ => rfl, hc₁⟩
  · refine ⟨fun depth span => ⟨_, _, by rw [Stmt.layout]; rfl, rfl⟩, fun {depth span u f} _ hu => ?_⟩
    simp only [Stmt.layout, List.cons_append, List.nil_append] at hu
    obtain ⟨hk, hc⟩ := hu.word
    obtain ⟨hk₁, hc₁⟩ := hc.faces.mark
    exact ⟨_, _, statementForm_ok.2
      (.inr (.inr (.inr (.inr (.inr (.inr (.inl ⟨hk, hk₁, rfl, rfl⟩))))))), fun _ _ => rfl,
      hc₁⟩
  · have hlayout (depth : Nat) (span : Span) : (Stmt.block span body.statements).layout depth = body.layout depth := by
      obtain ⟨span', ss⟩ := body
      rw [Stmt.layout, Block.layout]
      rfl
    refine ⟨fun depth span => ?_, fun {depth span u f} _ hu => ?_⟩
    · obtain ⟨f', hf'⟩ := Block.layout_cons body depth
      exact ⟨_, _, by rw [hlayout, hf']; rfl, rfl⟩
    · rw [hlayout] at hu
      have hk : u.peek.kind = .punctuation .lBrace := by rw [hu.peek (by rw [next_block]; simp), next_block]
      obtain ⟨body', u', hrun, hsame, hc⟩ := hr.block hs hb hu
      refine ⟨_, u', statementForm_ok.2 (.inr (.inr (.inr (.inr (.inr (.inr (.inr (.inl ⟨hk, body', hrun, rfl⟩)))))))),
        fun _ _ => ?_, hc⟩
      obtain ⟨span, ss⟩ := body
      obtain ⟨span', ss'⟩ := body'
      have hsame : Block.mk .zero _ = Block.mk .zero _ := hsame
      exact congrArg (Stmt.block .zero) (Block.mk.inj hsame).2
  · refine ⟨fun depth span => ?_, fun {depth span u f} _ hu => ?_⟩
    · obtain ⟨f₀, hl, ⟨k, ks, hk, hopen, -⟩, -⟩ := rereads_simpleStatement hr hs hsimple depth span
      exact ⟨k, _, by rw [hl, tokens_append, hk]; rfl, hopen⟩
    · obtain ⟨f₀, hl, ⟨k, ks, hk, hopen, hform⟩, hread⟩ := rereads_simpleStatement hr hs hsimple depth span
      rw [hl, List.append_assoc] at hu
      obtain ⟨form', u', hrun, hsame, hc⟩ := hread rfl hu
      obtain ⟨hk₁, hc₁⟩ := Faces.mark hc.faces
      refine ⟨form', _, statementForm_ok.2 (.inr (.inr (.inr (.inr (.inr (.inr (.inr (.inr ⟨?_, u', hrun, hk₁,
        rfl⟩)))))))), hsame, hc₁⟩
      have hgt : k ≠ .operator .gt := by
        rintro rfl
        simp [opensStatement] at hopen
      rw [hu.peek (by rwa [next_append hk]), next_append hk, hform]

/-- A statement is read again. -/
theorem rereads_statement {statement : Stmt} (hs : Ready s) (h : (Parser.statement g).run s = (.ok statement, s')) :
    (∀ depth, ∃ k ks, tokens (statement.layout depth) = k :: ks ∧ opensStatement k = true) ∧
      ∀ {depth : Nat} {u : ParseState} {f : List Fragment}, next f ≠ .keyword .elseKw →
        Faces u (statement.layout depth ++ f) → ∃ statement' u', (Parser.statement G).run u = (.ok statement', u') ∧
          SameStmt statement statement' ∧ Clear u' f := by
  obtain ⟨form, hform, rfl⟩ := statement_ok.1 h
  obtain ⟨hopens, hread⟩ := rereads_statementForm hr hin hr₂ hs hform
  refine ⟨fun depth => hopens depth _, fun hf hu => ?_⟩
  obtain ⟨form', u', hrun, hsame, hc⟩ := hread hf hu
  exact ⟨_, u', statement_ok.2 ⟨form', hrun, rfl⟩, hsame _ _, hc⟩

/-! ### Blocks -/

/-- The lines of a block up to its brace are read again, and do not begin with an `else`. -/
theorem rereads_statements {ss : List Stmt} (hs : Ready s) (h : Statements g s ss s') {depth d d' : Nat} :
    next (((stmtListLayout depth ss).map fun x => .line d :: x).flatten ++ .line d' :: mark .rBrace :: f) ≠
        .keyword .elseKw ∧
      ∀ {u : ParseState}, Clear u (((stmtListLayout depth ss).map fun x => .line d :: x).flatten ++
          .line d' :: mark .rBrace :: f) →
        ∃ ss' u', Statements G u ss' u' ∧ List.Forall₂ SameStmt ss ss' ∧ Clear u' f := by
  induction h with
  | nil _ =>
    refine ⟨by simp [stmtListLayout], fun {u} hu => ?_⟩
    obtain ⟨hk, hc⟩ := (Clear.line hu).space.mark
    exact ⟨[], _, .nil hk, .nil, hc⟩
  | stray _ _ ih => exact ih hs.advance
  | @cons s s₁ s' statement ss _ _ _ hst _ ih =>
    obtain ⟨hopens, hread⟩ := rereads_statement hr hin hr₂ hs hst
    obtain ⟨hne, hrest⟩ := ih (keeps_statement hr.settled hr.keeping hs hst)
    obtain ⟨k, ks, hk, hopen⟩ := hopens depth
    have hlayout : ((stmtListLayout depth (statement :: ss)).map fun x => .line d :: x).flatten ++
        .line d' :: mark .rBrace :: f = .line d :: (statement.layout depth ++
          (((stmtListLayout depth ss).map fun x => .line d :: x).flatten ++ .line d' :: mark .rBrace :: f)) := by
      simp [stmtListLayout]
    rw [hlayout, next_line, next_append hk]
    have hkind (k' : TokenKind) (h : opensStatement k' = false) : k ≠ k' := by
      rintro rfl
      simp [hopen] at h
    refine ⟨hkind _ rfl, fun {u} hu => ?_⟩
    have hu := (Clear.line hu).space
    have hp : u.peek.kind = k := by
      rw [hu.peek (by rw [next_append hk]; exact hkind _ rfl), next_append hk]
    have hend : u.atEnd = false := by
      have := hkind .eof rfl
      unfold ParseState.atEnd
      rw [hp]
      cases k <;> first | rfl | simp at this
    obtain ⟨statement', u₁, hrun, hsame, hc⟩ := hread hne hu
    obtain ⟨ss', u', hstatements, hsames, hc'⟩ := hrest hc
    exact ⟨statement' :: ss', u', .cons (by rw [hp]; exact hkind _ rfl) (by rw [hp]; exact hkind _ rfl) hend hrun
      hstatements,
      .cons hsame hsames, hc'⟩

/-- A block is read again. -/
theorem rereads_blockBody (o : ParseOptions) {body : Block} {depth : Nat} (hs : Ready s)
    (h : (blockBody ⟨limit, false⟩ g).run s = (.ok body, s')) (hu : Faces u (body.layout depth ++ f)) :
    ∃ body' u', (blockBody o G).run u = (.ok body', u') ∧ SameBlock body body' ∧ Clear u' f := by
  obtain ⟨-, ss, hss, rfl⟩ := (blockBody_stopping hr.settled).1 h
  have hread : u.peek.kind = .punctuation .lBrace ∧ ∃ ss' u', Statements G u.advance ss' u' ∧
      List.Forall₂ SameStmt ss ss' ∧ Clear u' f := by
    rw [Block.layout, braces] at hu
    cases ss with
    | nil =>
      obtain ⟨hk, hc⟩ := Faces.mark hu
      obtain ⟨hk₁, hc₁⟩ := hc.faces.mark
      exact ⟨hk, [], _, .nil hk₁, .nil, hc₁⟩
    | cons statement ss =>
      simp only [stmtListLayout, List.isEmpty_cons, Bool.false_eq_true, if_false, List.cons_append] at hu
      obtain ⟨hk, hc⟩ := hu.mark
      rw [List.append_assoc] at hc
      exact ⟨hk, (rereads_statements hr hin hr₂ hs.advance hss).2 hc⟩
  obtain ⟨hk, ss', u', hss', hsame, hc⟩ := hread
  refine ⟨_, u', (blockBody_ok hr.settled' hc.fragments.clean).2 ⟨hk, ss', hss', rfl⟩, ?_, hc⟩
  change Block.mk .zero _ = Block.mk .zero _
  rw [stmtListMapSpans_eq_map, stmtListMapSpans_eq_map, map_eq_of_same hsame]

end

/-! ### At any depth -/

/-- An expression in parentheses was read as one. -/
theorem paren_of_expressionBody (hg : g.Settled) {span : Span} {e : Expr}
    (h : (expressionBody g header).run s = (.ok (.paren span e), s')) :
    ∃ s₁, (g.expression false).run s.advance = (.ok e, s₁) := by
  have hchain {e₁ : Expr} {s₁ s₂ : ParseState} (h : Grows (chainStep g header 1) e₁ s₁ (.paren span e) s₂) :
      e₁ = .paren span e := by
    generalize hp : Expr.paren span e = p at h
    induction h with
    | stop _ => rfl
    | next h _ ih =>
      obtain ⟨op, right, -, -, -, -, -, hj⟩ := chainStep_some.1 h
      obtain rfl := ih hp
      rw [← hp] at hj
      have := (joined?_level hj).1
      have hprec : op.precedence ≤ 12 := by cases op <;> decide
      simp only [Expr.level, primaryLevel] at this
      omega
  have hsuffix {e₁ : Expr} {start : Nat} {s₁ s₂ : ParseState}
      (h : Grows (suffixStep g start) e₁ s₁ (.paren span e) s₂) : e₁ = .paren span e := by
    generalize hp : Expr.paren span e = p at h
    induction h with
    | stop _ => rfl
    | next h _ ih =>
      obtain rfl := ih hp
      rw [← hp] at h
      rcases (suffixStep_some hg).1 h with ⟨-, _, -, hcall⟩ | ⟨-, -, -, _, _, _, -, -, hcall⟩ | ⟨-, _, -, -, hcall⟩ |
        ⟨-, _, _, -, -, -, hcall⟩ <;> cases hcall
  obtain ⟨condition, s₁, hc, ⟨-, rfl, -⟩ | ⟨-, _, _, _, -, -, -, hcond⟩⟩ := expressionBody_ok.1 h
  swap
  · cases hcond
  obtain ⟨first, s₂, hu, hgrow⟩ := (chainBody_ok hg).1 hc
  rw [hchain hgrow] at hu
  rcases (unaryBody_ok hg).1 hu with ⟨_, _, _, -, -, -, -, h⟩ | ⟨-, h⟩ | ⟨-, h⟩ | ⟨-, -, h⟩
  · cases h
  · obtain ⟨-, _, -, h⟩ := doubleAddress_ok.1 h
    cases h
  · obtain ⟨_, _, _, -, -, -, h⟩ := (cast?_some hg).1 h
    cases h
  · obtain ⟨first', s₃, hp, hgrow'⟩ := (operandExpr_ok hg).1 h
    rw [hsuffix hgrow'] at hp
    rcases primary_ok.1 hp with ⟨hl, -⟩ | ⟨-, hl⟩ | ⟨-, hn⟩ | ⟨-, hp⟩ | ⟨-, ha⟩ | ⟨-, hh⟩ | ⟨-, hd⟩
    · unfold literalOf? at hl
      split at hl <;> cases hl
    · obtain ⟨-, _, _, -, ⟨-, _, -, h⟩ | ⟨-, _, -, h⟩⟩ := lambda_ok.1 hl <;> cases h
    · obtain ⟨_, -, ⟨-, _, -, h⟩ | ⟨-, -, h⟩ | ⟨-, -, -, h⟩⟩ := (nameExpr_ok hg).1 hn
      · cases h
      · obtain ⟨_, _, _, _, -, -, -, -, -, h⟩ := (structLiteral?_some hg).1 h
        cases h
      · cases h
    · obtain ⟨inner, s₄, hi, -, -, h⟩ := parenthesized_ok.1 hp
      cases h
      exact ⟨s₄, hi⟩
    · obtain ⟨-, _, _, _, _, -, -, -, h, -⟩ := (arrayLiteral_ok hg).1 ha
      cases h
    · obtain ⟨-, ⟨-, ha⟩ | ⟨_, _, -, -, -, h⟩⟩ := hashExpr_ok.1 hh
      · obtain ⟨-, _, _, _, _, -, -, -, h, -⟩ := (arrayLiteral_ok hg).1 ha
        cases h
      · cases h
    · obtain ⟨-, -, ⟨-, -, -, _, _, _, -, h⟩ | ⟨-, _, _, -, h⟩ | ⟨_, -, ⟨-, -, _, -, h⟩ | ⟨-, -, h⟩⟩⟩ :=
      dollarExpr_ok.1 hd
      all_goals cases h

/-- What was read at some depth of a parse that stops at its first failure is read again where twice the nesting is
allowed. -/
theorem replayed_ofRoom (limit room : Nat) (o : ParseOptions) (room' : Nat) (hle : 2 * room ≤ room') :
    (Inner.ofRoom ⟨limit, false⟩ room).Replayed (Inner.ofRoom o room') limit room o.maxDepth room' := by
  have htype (room : Nat) : (Inner.ofRoom o room).type = typeExpr o.maxDepth room := by cases room <;> rfl
  induction room generalizing room' with
  | zero =>
    exact ⟨settled_ofRoom _ _, settled_ofRoom _ _, forms_ofRoom _ _, keeps_ofRoom _ _, leading_ofRoom _ _, htype _,
      Nat.zero_le _, fun h => absurd (tooDeep_ok.1 h) id, fun _ h => absurd (tooDeep_ok.1 h) id,
      fun _ h => absurd (tooDeep_ok.1 h) id, fun _ _ h => absurd (tooDeep_ok.1 h) id,
      fun _ h => absurd (tooDeep_ok.1 h) id, fun _ h => absurd (tooDeep_ok.1 h) id,
      fun _ h => absurd (tooDeep_ok.1 h) id⟩
  | succ room ih =>
    obtain ⟨r, rfl⟩ : ∃ r, room' = r + 2 := ⟨room' - 2, by omega⟩
    have hr := ih (r + 1) (by omega)
    have hr₂ := ih r (by omega)
    have hin : (Inner.ofRoom o (r + 1)).Under (Inner.ofRoom o r) := ⟨fun _ => rfl, fun _ => rfl⟩
    exact ⟨settled_ofRoom _ _, settled_ofRoom _ _, forms_ofRoom _ _, keeps_ofRoom _ _, leading_ofRoom _ _, htype _,
      by omega, fun _ => Nat.succ_pos _,
      fun hs h => (paren_of_expressionBody hr.settled h).imp fun s₁ hi => (ih (r + 2) (by omega)).expression
        hs.advance hi,
      fun hs h => rereads_expressionBody hr hin hr₂ hs h, fun hl hs h => rereads_chainBody hr hin hr₂ hl hs h,
      fun hs h => rereads_unaryBody hr hin hr₂ hs h, fun hs h => rereads_blockBody hr hin hr₂ o hs h,
      fun hs h => rereads_ifBody hr hin hr₂ hs h⟩

end Parser

end ElleFrontEnd
