import ElleFrontEnd.Proofs.ConveyStmt
import ElleFrontEnd.Proofs.Formatted

/-!
# The words of a formatted source

Formatting a source neither loses nor adds a word, and the words other than `>` keep their order.  Where no pair of
types goes on although a `>` is owed, all of them do (`formatSource_words`).

A field of a struct may be written `name: Type` as well, which is printed the other way round.  So this is said of
sources in which the type of each field comes first (`Program.typesFirst`).
-/

namespace ElleFrontEnd

open Fragment

/-! ### Layouts of declarations -/

variable {keep : TokenKind → Bool}

theorem kept_declarationsLayout (blankLines : Nat) (ds : List Declaration) :
    Fragment.kept keep (declarationsLayout blankLines ds) = ds.flatMap fun d => Fragment.kept keep d.layout := by
  have hblank (previous next : Declaration) :
      Fragment.kept keep (blankLinesBetween blankLines previous next) = [] := by
    unfold blankLinesBetween
    split
    · rfl
    · induction blankLines with
      | zero => rfl
      | succ n ih => rw [List.replicate_succ, kept_line, ih]
  have hlater (previous : Declaration) (ds : List Declaration) :
      Fragment.kept keep (laterDeclarations blankLines previous ds) =
        ds.flatMap fun d => Fragment.kept keep d.layout := by
    induction ds generalizing previous with
    | nil => rfl
    | cons d ds ih => simp [laterDeclarations, hblank, ih]
  cases ds with
  | nil => rfl
  | cons d ds => simp [declarationsLayout, hlater]

/-- Whether the type of each field of a struct is written before its name. -/
def StructDecl.typesFirst (d : StructDecl) : Bool := d.fields.all fun f => f.type.span.start = f.span.start

/-- Whether the declaration is no struct, or one in which types are written before names. -/
def Declaration.typesFirst : Declaration → Bool
  | .struct _ d => d.typesFirst
  | _ => true

/-- Whether the types of all fields of structs are written before their names. -/
def Program.typesFirst (p : Program) : Bool := p.declarations.all Declaration.typesFirst

/-! ### Names -/

/-- A name is no reserved word. -/
theorem ofSpelling?_of_legible {n : String} (h : (TokenKind.ident n).Legible) : Keyword.ofSpelling? n = none := by
  cases hk : Keyword.ofSpelling? n with
  | none => rfl
  | some k =>
    obtain rfl : k.spelling = n := by simpa using List.find?_some hk
    obtain ⟨c, cs, hs⟩ := h
    obtain ⟨c', cs', hs'⟩ := legible_keyword k
    have hdisplay : c :: cs = c' :: cs' := hs.display.symm.trans hs'.display
    obtain ⟨rfl, rfl⟩ := List.cons.inj hdisplay
    have hread := hs.reads [] (TokenKind.halts_nil _)
    rw [hs'.reads [] (TokenKind.halts_nil _)] at hread
    simp [Lexeme.ofToken] at hread

/-- The tokens of a source are legible but for its end. -/
theorem legible_of_mem_lex {source : String} {t : Token} (h : t ∈ (lex source).tokens) (he : t.kind ≠ .eof) :
    t.kind.Legible := by
  have hmem : t.kind ∈ (lex source).tokens.map Token.kind := List.mem_map_of_mem h
  rw [lex, kinds_placed, List.mem_append, List.mem_singleton] at hmem
  exact legible_of_mem_lexemes (hmem.resolve_right he)

namespace Parser

variable {source : String} {s s' : ParseState} {g : Inner}

theorem mem_of_along {tokens : List Token} (hs : Along tokens s) (he : s.peek.kind ≠ .eof) : s.peek ∈ tokens := by
  obtain ⟨n, hn⟩ := hs.stands
  obtain ⟨ts, hr⟩ := ParseState.rest_of_peek he
  exact List.mem_of_mem_drop (hn.rest ▸ hr ▸ List.mem_cons_self)

/-- Tokens begin one behind another. -/
theorem start_lt_of_along (hs : Along (lex source).tokens s) (he : s.peek.kind ≠ .eof)
    (he' : s.advance.peek.kind ≠ .eof) : s.peek.span.start < s.advance.peek.span.start := by
  obtain ⟨hordered, -, ts₀, e, htokens, hend, -, hpos⟩ := tokensLaid_lex source
  obtain ⟨n, hn⟩ := hs.stands
  obtain ⟨ts, hr⟩ := ParseState.rest_of_peek he
  obtain ⟨ts', hr'⟩ := ParseState.rest_of_peek he'
  have hrest : s.rest = s.peek :: s.advance.peek :: ts' := by
    rw [← hr', ParseState.advance_cons hr he, hr]
  have hle : s.peek.span.stop ≤ s.advance.peek.span.start := by
    have hdrop := hordered.sublist (List.drop_sublist n _)
    rw [← hn.rest, hrest] at hdrop
    exact (List.pairwise_cons.1 hdrop).1 _ List.mem_cons_self
  have hmem := mem_of_along hs he
  rw [htokens, List.mem_append, List.mem_singleton] at hmem
  have hlt := (hpos _ (hmem.resolve_right fun h => he (h ▸ hend))).2
  omega

theorem start_of_grows {start : Nat} {t t' : TypeExpr} (h : Grows (typeSuffix start) t s t' s')
    (ht : t.span.start = start) : t'.span.start = start := by
  induction h with
  | stop _ => exact ht
  | next h _ ih => obtain ⟨-, ⟨-, n, -, rfl⟩ | ⟨-, -, n, -, rfl⟩⟩ := typeSuffix_some.1 h <;> exact ih rfl

/-- A type begins where it is read. -/
theorem start_of_typeExpr {limit room angles : Nat} {t : TypeExpr}
    (h : (typeExpr limit room angles).run s = (.ok t, s')) :
    t.span.start = s.peek.span.start ∧ s.peek.kind ≠ .eof := by
  obtain ⟨inner, rfl, hbody⟩ := typeExpr_ok.1 h
  obtain ⟨base, s₁, hb, hgrow⟩ := typeBody_ok.1 hbody
  rcases baseType_ok.1 hb with ⟨p, hk, rfl, rfl⟩ | ⟨name, hk, hname⟩ | ⟨hk, htuple⟩
  · exact ⟨start_of_grows hgrow rfl, by simp [hk]⟩
  · rcases namedType_ok.1 hname with ⟨-, -, args, -, rfl⟩ | ⟨-, rfl, rfl⟩
    · exact ⟨start_of_grows hgrow rfl, by simp [hk]⟩
    · exact ⟨start_of_grows hgrow rfl, by simp [hk]⟩
  · obtain ⟨first, s₂, second, s₃, -, -, -, -, rfl, rfl⟩ := tupleType_ok.1 htuple
    exact ⟨start_of_grows hgrow rfl, by simp [hk]⟩

/-! ### Declarations -/

variable {tokens : List Token}

theorem conveys_identifier {n : String} (h : identifier.run s = (.ok n, s')) :
    Conveys keep tokens s ((TokenKind.ident n).kept keep) s' := by
  obtain ⟨hk, rfl⟩ := identifier_ok.1 h
  exact .advance hk (by simp)

theorem conveys_typeParams {names : List String} (h : typeParams.run s = (.ok names, s')) :
    Conveys keep tokens s (Fragment.kept keep (typeParamsLayout names)) s' := by
  rcases typeParams_ok.1 h with ⟨hk, s₁, hl, hclose, rfl⟩ | ⟨-, rfl, rfl⟩
  · have hnames : Conveys keep tokens s.advance (names.flatMap fun n => (TokenKind.ident n).kept keep) s₁ :=
      .listed conveys_identifier (k := .punctuation .comma) id (by simp) rfl hl
    refine (((Conveys.advance hk (by simp)).trans hnames).trans (.advance hclose (by simp))).congr ?_
    simp [typeParamsLayout, ne_nil_of_separatedListed hl, List.flatMap_map]
  · exact .refl

theorem conveys_declName {name : DeclName} (h : declName.run s = (.ok name, s')) :
    Conveys keep tokens s (Fragment.kept keep name.layout) s' := by
  rcases declName_ok.1 h with ⟨raw, hk, rfl, rfl⟩ | ⟨first, hk, ⟨-, tail, ht, rfl⟩ | ⟨-, rfl, rfl⟩⟩
  · exact (Conveys.advance hk (by simp)).congr (by simp [DeclName.layout])
  · refine ((Conveys.advance hk (by simp)).trans (conveys_pathTail ht)).congr ?_
    simp [DeclName.layout, kept_separated, List.flatMap_map]
  · exact (Conveys.advance hk (by simp)).congr (by simp [DeclName.layout])

theorem kind_of_visibility? {kind : TokenKind} {v : Visibility} (h : kind.visibility? = some v) :
    kind = .keyword (.visibility v) := by
  cases kind with
  | keyword k => cases k <;> simp_all [TokenKind.visibility?, Keyword.visibility?]
  | _ => simp [TokenKind.visibility?] at h

theorem conveys_modified {ms : List Modifier} (h : Modified s ms s') :
    Conveys keep tokens s (Fragment.kept keep (modifiersLayout ms)) s' := by
  induction h with
  | nil _ _ => exact .refl
  | plain hv _ ih =>
    refine ((Conveys.advance (kind_of_visibility? hv) (by simp)).trans ih).congr ?_
    simp [modifiersLayout]
  | negated hk hv _ ih =>
    rw [ParseState.kindAt_one (by simp [hk])] at hv
    refine (((Conveys.advance hk (by simp)).trans (.advance (kind_of_visibility? hv) (by simp))).trans ih).congr ?_
    simp [modifiersLayout]

/-- A segment of a path is printed as the reserved word or the name that it was. -/
theorem conveys_pathSegment {segment : String} (h : pathSegment.run s = (.ok segment, s')) :
    Conveys keep (lex source).tokens s (Fragment.kept keep [segmentFragment segment]) s' := by
  obtain ⟨rfl, ⟨k, hk, rfl⟩ | hk⟩ := pathSegment_ok.1 h
  · refine (Conveys.advance hk (by simp)).congr ?_
    have hspell : Keyword.ofSpelling? k.spelling = some k := by
      rcases k with type | _ | _ | _ | _ | _ | _ | kind | _ | _ | _ | _ | _ | _ | _ | _ | _ | value
      case primitive => cases type <;> decide
      case visibility => cases kind <;> decide
      case boolean => cases value <;> decide
      all_goals decide
    simp [segmentFragment, hspell]
  · intro hs
    have hlegible := legible_of_mem_lex (mem_of_along hs.toAlong (by simp [hk])) (by simp [hk])
    have hnone := ofSpelling?_of_legible (hk ▸ hlegible)
    exact ((Conveys.advance hk (by simp)).congr (by simp [segmentFragment, hnone])) hs

theorem conveys_globalOption {option : GlobalOption} (h : globalOption.run s = (.ok option, s')) :
    Conveys keep tokens s (Fragment.kept keep [word (.visibility option.visibility)]) s' := by
  obtain ⟨rfl, hv⟩ := globalOption_ok.1 h
  exact (Conveys.advance (kind_of_visibility? hv) (by simp)).congr (by simp)

section
variable (hg : g.Settled) (hy : g.Conveying keep tokens)
include hy

theorem conveys_returnType {o : Option TypeExpr} (h : (returnType g).run s = (.ok o, s')) :
    Conveys keep tokens s (o.toList.flatMap fun t =>
      (TokenKind.punctuation .arrow).kept keep ++ Fragment.kept keep t.layout) s' := by
  rcases returnType_ok.1 h with ⟨hk, t, rfl, ht⟩ | ⟨-, rfl, rfl⟩
  · exact ((Conveys.advance hk (by simp)).trans (hy.type ht)).congr (by simp)
  · exact .refl

theorem conveys_functionBody {ms : List Modifier} {name : DeclName} {o : Option Block}
    (h : (functionBody g ms name).run s = (.ok o, s')) :
    Conveys keep tokens s (o.toList.flatMap (Block.kept keep)) s' := by
  rcases functionBody_ok.1 h with ⟨-, -, body, rfl, hb⟩ | ⟨hk, rfl, rfl⟩
  · exact (hy.block hb).congr (by simp)
  · exact .advance hk (by simp)

theorem conveys_constDecl {ms : List Modifier} {c : ConstDecl} (hm : Modified s' ms s)
    {s'' : ParseState} (h : (constDecl g ms).run s = (.ok c, s'')) :
    Conveys keep tokens s' (Fragment.kept keep (c.layout 0)) s'' := by
  obtain ⟨hk, rfl, s₁, s₂, ht, hk₁, hk₂, hv, hsemi, rfl⟩ := constDecl_ok.1 h
  have htype : Conveys keep tokens s.advance (c.type.toList.flatMap fun t => Fragment.kept keep t.layout) s₁ := by
    rcases constType_ok.1 ht with ⟨-, -, hnone, rfl⟩ | ⟨-, t, hsome, ht⟩
    · exact Conveys.refl.congr (by simp [hnone])
    · exact (hy.type ht).congr (by simp [hsome])
  refine (((((((conveys_modified hm).trans (.advance hk (by simp))).trans htype).trans (.advance hk₁ (by simp))).trans
    (.advance hk₂ (by simp))).trans (hy.expression hv)).trans (.advance hsemi (by simp))).congr ?_
  cases hc : c.type <;> simp [ConstDecl.layout, hc]

include hg

theorem conveys_attributed {as : List Attribute} (h : Attributed g s as s') :
    Conveys keep tokens s (as.flatMap fun a => Fragment.kept keep (a.layout 0)) s' := by
  induction h with
  | nil _ => exact .refl
  | bare hk hk₁ _ _ ih =>
    exact (((Conveys.advance hk (by simp)).trans (.advance hk₁ (by simp))).trans ih).congr (by simp [Attribute.layout])
  | called hk hk₁ _ ha _ ih =>
    exact ((((Conveys.advance hk (by simp)).trans (.advance hk₁ (by simp))).trans (conveys_arguments hg hy ha)).trans
      ih).congr (by simp [Attribute.layout])

theorem conveys_functionDecl {ms : List Modifier} {f : FunctionDecl} (hm : Modified s' ms s)
    {s'' : ParseState} (h : (functionDecl g ms).run s = (.ok f, s'')) :
    Conveys keep tokens s' (Fragment.kept keep (f.layout 0)) s'' := by
  obtain ⟨hk, rfl, s₁, s₂, s₃, s₄, s₅, hn, ht, hp, ha, hr, hb⟩ := (functionDecl_ok hg).1 h
  refine ((((((((conveys_modified hm).trans (.advance hk (by simp))).trans (conveys_declName hn)).trans
    (conveys_typeParams ht)).trans (conveys_paramList hg hy hp)).trans (conveys_attributed hg hy ha)).trans
    (conveys_returnType hy hr)).trans (conveys_functionBody hy hb)).congr ?_
  have hattributes : Fragment.kept keep (f.attributes.flatMap (Attribute.layout 0)) =
      f.attributes.flatMap fun a => Fragment.kept keep (a.layout 0) := by
    rw [List.flatMap_def, kept_flatten, List.flatMap_map]
  cases ht : f.returnType <;> cases hb : f.body <;> simp [FunctionDecl.layout, hattributes, ht, hb]

end

section
variable (hy : g.Conveying keep (lex source).tokens)
  (hstart : ∀ {s t s'}, (g.type 0).run s = (.ok t, s') → t.span.start = s.peek.span.start ∧ s.peek.kind ≠ .eof)
include hy hstart

/-- A field whose type begins where the field begins was not written with its name first. -/
theorem conveys_structField {f : Field} (hf : f.type.span.start = f.span.start)
    (h : (structField g).run s = (.ok f, s')) :
    Conveys keep (lex source).tokens s (Fragment.kept keep f.layout) s' := by
  obtain ⟨hspan, ⟨hcolon, hk, ht⟩ | ⟨-, s₁, ht, hk, rfl⟩⟩ := structField_ok.1 h
  · intro hs
    rw [ParseState.kindAt_one (by simp [hk])] at hcolon
    obtain ⟨htype, hne⟩ := hstart ht
    have hlt := start_lt_of_along hs.toAlong (by simp [hk]) (by simp [hcolon])
    have hlt' := start_lt_of_along hs.toAlong.advance (by simp [hcolon]) hne
    have hfield : f.span.start = s.peek.span.start := by
      rw [hspan]
      rfl
    omega
  · exact ((hy.type ht).trans (.advance hk (by simp))).congr (by simp [Field.layout])

theorem conveys_fields {fs : List Field} (hf : ∀ f ∈ fs, f.type.span.start = f.span.start) (h : Fields g s fs s') :
    Conveys keep (lex source).tokens s (fs.flatMap (fun f => Fragment.kept keep f.layout) ++
      (TokenKind.punctuation .rBrace).kept keep) s' := by
  induction h with
  | nil hk => exact (Conveys.advance hk (by simp)).congr (by simp)
  | @ended s s₁ s' f fs _ h hend _ ih =>
    have hfield := conveys_structField hy hstart (hf f List.mem_cons_self) h
    have hend : Conveys keep (lex source).tokens s₁ [] s₁.advance := by
      rcases hend with hend | hend <;> exact .advance hend (by simp)
    exact ((hfield.trans hend).trans (ih fun f' hf' => hf f' (List.mem_cons_of_mem _ hf'))).congr (by simp)
  | last _ h hk he =>
    have hfield := conveys_structField hy hstart (hf _ List.mem_cons_self) h
    exact he ▸ (hfield.trans (.advance hk (by simp))).congr (by simp)

variable (hg : g.Settled)
include hg

theorem conveys_structDecl {ms : List Modifier} {d : StructDecl} (hd : d.typesFirst = true)
    (hm : Modified s' ms s) {s'' : ParseState} (h : (structDecl g ms).run s = (.ok d, s'')) :
    Conveys keep (lex source).tokens s' (Fragment.kept keep (d.layout 0)) s'' := by
  obtain ⟨hk, rfl, hk₁, s₁, s₂, s₃, ht, ha, hopen, hfields, rfl⟩ := (structDecl_ok hg).1 h
  have hf : ∀ f ∈ d.fields, f.type.span.start = f.span.start := by simpa [StructDecl.typesFirst] using hd
  have hend : Conveys keep (lex source).tokens s₃ []
      (if s₃.peek.kind = .punctuation .semicolon then s₃.advance else s₃) := by
    split
    · rename_i hsemi
      exact .advance hsemi (by simp)
    · exact .refl
  refine ((((((((conveys_modified hm).trans (.advance hk (by simp))).trans (.advance hk₁ (by simp))).trans
    (conveys_typeParams ht)).trans (conveys_attributed hg hy ha)).trans (.advance hopen (by simp))).trans
    (conveys_fields hy hstart hf hfields)).trans hend).congr ?_
  have hattributes : Fragment.kept keep (d.attributes.flatMap (Attribute.layout 0)) =
      d.attributes.flatMap fun a => Fragment.kept keep (a.layout 0) := by
    rw [List.flatMap_def, kept_flatten, List.flatMap_map]
  simp [StructDecl.layout, hattributes, List.flatMap_map]

theorem conveys_declaration {d : Declaration} (hd : d.typesFirst = true)
    (h : (Parser.declaration g).run s = (.ok d, s')) :
    Conveys keep (lex source).tokens s (Fragment.kept keep d.layout) s' := by
  obtain ⟨form, hform, rfl⟩ := declaration_ok.1 h
  rcases declarationForm_ok.1 hform with ⟨-, path, hpath, rfl⟩ | ⟨-, options, hoptions, rfl⟩ | ⟨hk, name, hname, rfl⟩ |
    ⟨-, -, -, hmodified⟩
  · obtain ⟨hk, s₁, hl, hsemi, rfl⟩ := importPath_ok.1 hpath
    obtain ⟨first, others, hsegments, hlist⟩ := Conveys.separated conveys_pathSegment (by simp) hl
    refine (((Conveys.advance hk (by simp)).trans hlist).trans (.advance hsemi (by simp))).congr ?_
    simp [Declaration.layout, hsegments, kept_separated, List.flatMap_map]
  · obtain ⟨hk, s₁, hl, hsemi, rfl⟩ := globalLine_ok.1 hoptions
    have hlist : Conveys keep (lex source).tokens s.advance
        (options.flatMap fun o => Fragment.kept keep [word (.visibility o.visibility)]) s₁ :=
      .listed conveys_globalOption (k := .punctuation .comma) id (by simp) rfl hl
    exact (((Conveys.advance hk (by simp)).trans hlist).trans (.advance hsemi (by simp))).congr
      (by simp [Declaration.layout, List.flatMap_map])
  · obtain ⟨hk₁, hsemi, rfl⟩ := moduleLine_ok.1 hname
    exact (((Conveys.advance hk (by simp)).trans (.advance hk₁ (by simp))).trans (.advance hsemi (by simp))).congr
      (by simp [Declaration.layout])
  obtain ⟨ms, s₁, hm, ⟨-, f, hf, rfl⟩ | ⟨-, c, hc, rfl⟩ | ⟨-, c, hc, rfl⟩⟩ := modifiedForm_ok.1 hmodified
  · refine (conveys_functionDecl hg hy hm hf).congr ?_
    unfold functionForm
    split <;> rfl
  · exact conveys_constDecl hy hm hc
  · exact conveys_structDecl hy hstart hg hd hm hc

end

/-- A program in which nothing has failed passes the words of its declarations. -/
theorem conveys_declared {o : ParseOptions} {ds : List Declaration}
    (hp : GtCommutes keep ∨ PairsSettle o.maxDepth (lex source).tokens) (hds : ∀ d ∈ ds, d.typesFirst = true)
    (h : Declared (Inner.ofRoom o o.maxDepth) s ds s') (he : s'.errors = []) :
    Conveys keep (lex source).tokens s (ds.flatMap fun d => Fragment.kept keep d.layout) s' := by
  induction h with
  | nil _ => exact .refl
  | stray hk _ ih => exact ((Conveys.advance hk (by simp)).trans (ih hds he)).congr (by simp)
  | @cons s s₁ s' d ds _ _ hd hrest ih =>
    have hclean := (advances_of_declared (settled_ofRoom o o.maxDepth) hrest).errors_nil he
    have hy := conveying_ofRoom hp (Nat.le_refl _)
    have hstart {s t s'} (h : ((Inner.ofRoom ⟨o.maxDepth, false⟩ o.maxDepth).type 0).run s = (.ok t, s')) :
        t.span.start = s.peek.span.start ∧ s.peek.kind ≠ .eof := by
      rw [Inner.ofRoom_type] at h
      exact start_of_typeExpr h
    have hfirst := conveys_declaration hy hstart (settled_ofRoom _ _) (hds d List.mem_cons_self)
      (declaration_stopping hclean hd)
    exact (hfirst.trans (ih (fun d' hd' => hds d' (List.mem_cons_of_mem _ hd')) he)).congr (by simp)

end Parser

/-! ### Programs -/

/-- Where a parser has come to the end of the source, nothing but its last token is left. -/
theorem rest_of_atEnd {ts used : List Token} {e : Token} {s : ParseState} (hts : ∀ t ∈ ts, t.kind ≠ .eof)
    (he : e.kind = .eof) (hp : Passes { rest := ts ++ [e] } used s) (hend : s.atEnd = true) : s.rest = [e] := by
  rcases List.append_eq_append_iff.1 hp.rest with ⟨tail, rfl, hrest⟩ | ⟨front, rfl, hrest⟩
  · cases tail with
    | nil => exact hrest.symm
    | cons t tail =>
      obtain ⟨rfl, -⟩ := List.cons.inj hrest
      exact absurd he (hp.noEof _ (List.mem_append_right _ List.mem_cons_self))
  · cases front with
    | nil => exact hrest
    | cons t front =>
      have hpeek : s.peek = t := ParseState.peek_cons hrest
      have hk : t.kind = .eof := hpeek ▸ TokenKind.isEof_iff.1 hend
      exact absurd hk (hts t (List.mem_append_right _ List.mem_cons_self))

/-- The words of a source that is read are those of its printed form, with the end of the source behind them. -/
theorem kept_of_parseTokens {source : String} {o : ParseOptions} {p : Program}
    (hp : GtCommutes keep ∨ PairsSettle o.maxDepth (lex source).tokens) (hfirst : p.typesFirst = true)
    (h : parseTokens (lex source).tokens o = .ok p) (blankLines : Nat) :
    wordsOf keep ((lex source).tokens.map Token.kind) =
      Fragment.kept keep (p.layout blankLines) ++ TokenKind.eof.kept keep := by
  obtain ⟨s', he, hds⟩ := parseTokens_ok.1 h
  have hall : ∀ d ∈ p.declarations, d.typesFirst = true := by simpa [Program.typesFirst] using hfirst
  have hs : Stands (lex source).tokens { rest := (lex source).tokens } :=
    ⟨⟨rfl, 0, Nat.zero_le _, rfl, rfl⟩, rfl⟩
  obtain ⟨hs', hw⟩ := Parser.conveys_declared hp hall hds he hs
  obtain ⟨⟨used, hu⟩, -⟩ := Parser.advances_of_declared (settled_ofRoom o o.maxDepth) hds
  obtain ⟨-, -, ts, e, htokens, hlast, -, hts⟩ := tokensLaid_lex source
  have hrest := rest_of_atEnd (fun t ht => (hts t ht).1) hlast (htokens ▸ hu) (Parser.atEnd_of_declared hds)
  rw [Program.layout, kept_declarationsLayout]
  simpa [ParseState.ahead, hs'.owed, hrest, hlast, ParseState.kinds] using hw

/-! ### Formatted sources -/

theorem kinds_unglued (ms : List Mark) : (unglued ms).map Mark.kind = ms.map Mark.kind := by
  cases ms <;> rfl

theorem kinds_marks (f : List Fragment) : (marks f).map Mark.kind = tokens f := by
  induction f with
  | nil => rfl
  | cons a f ih =>
    cases a with
    | token k => exact congrArg (k :: ·) ih
    | space | line => exact (kinds_unglued _).trans ih

/-- Two `>` are the same words as one `>>`. -/
theorem wordsOf_fuse (ms : List Mark) : wordsOf keep ((fuse ms).map Mark.kind) = wordsOf keep (ms.map Mark.kind) := by
  induction hn : ms.length using Nat.strongRecOn generalizing ms with
  | ind n ih =>
    subst hn
    cases ms with
    | nil => rfl
    | cons m ms =>
      cases ms with
      | nil => rfl
      | cons next ms =>
        unfold fuse
        split
        · rename_i hgt
          have hms := ih _ (by simp only [List.length_cons]; omega) ms rfl
          simp [hgt.1, hgt.2, hms, kept_shr]
        · have hms := ih _ (by simp) (next :: ms) rfl
          simpa using hms

/-- The tokens of a source are those that touch or stand apart, and its end. -/
theorem kinds_of_laid {text : List Char} {ts : List Token} (h : TokensLaid text ts) (last : Option Token) :
    ts.map Token.kind = (marksOf last ts).map Mark.kind ++ [.eof] := by
  obtain ⟨us, e, rfl, he, -, hus⟩ := h.ended
  clear h
  induction us generalizing last with
  | nil => simp [marksOf, he, TokenKind.isEof]
  | cons u us ih =>
    have hu : u.kind.isEof = false := by
      rw [← Bool.not_eq_true, TokenKind.isEof_iff]
      exact (hus u List.mem_cons_self).1
    have hrest := ih (some u) fun v hv => hus v (List.mem_cons_of_mem _ hv)
    simp [marksOf, hu, hrest]

/-- The words of a formatted source are those of the source that was read. -/
theorem wordsOf_formatSource {source t : String} {config : LayoutConfig} {p : Program}
    (h : formatSource source config = .ok t) (hp : parseTokens (lex source).tokens {} = .ok p)
    (hfirst : p.typesFirst = true) (hkeep : GtCommutes keep ∨ PairsSettle 256 (lex source).tokens) :
    wordsOf keep ((lex source).tokens.map Token.kind) = wordsOf keep ((lex t).tokens.map Token.kind) := by
  obtain ⟨herrors, -, p', hp', rfl⟩ := formatSource_ok.1 h
  obtain rfl : p = p' := Except.ok.inj (hp.symm.trans hp')
  have hlex : tokenize source = .ok (lex source).tokens := by
    rw [tokenize, herrors]
    rfl
  obtain ⟨hmarks, -, -⟩ := lex_render config.indent (legible_of_parseTokens hlex hp config.blankLines)
  have hprinted : wordsOf keep ((lex (p.print config)).tokens.map Token.kind) =
      Fragment.kept keep (p.layout config.blankLines) ++ TokenKind.eof.kept keep := by
    rw [kinds_of_laid (tokensLaid_lex _) none, Program.print, hmarks, wordsOf_append, wordsOf_fuse, kinds_marks]
    rw [wordsOf_cons, wordsOf_nil, List.append_nil]
    rfl
  rw [hprinted, kept_of_parseTokens hkeep hfirst hp config.blankLines]

/-- Formatting a source in which types stand before the names of fields loses no word and adds none.  The words but `>`
keep their order, and where no pair of types goes on with a `>` owed, all of them do. -/
theorem formatSource_words {source t : String} {config : LayoutConfig} {p : Program}
    (h : formatSource source config = .ok t) (hp : parseTokens (lex source).tokens {} = .ok p)
    (hfirst : p.typesFirst = true) :
    (wordsOf (fun _ => true) ((lex source).tokens.map Token.kind)).Perm
        (wordsOf (fun _ => true) ((lex t).tokens.map Token.kind)) ∧
      wordsOf (· ≠ .operator .gt) ((lex source).tokens.map Token.kind) =
        wordsOf (· ≠ .operator .gt) ((lex t).tokens.map Token.kind) ∧
      (PairsSettle 256 (lex source).tokens → wordsOf (fun _ => true) ((lex source).tokens.map Token.kind) =
        wordsOf (fun _ => true) ((lex t).tokens.map Token.kind)) := by
  have hother : wordsOf (· ≠ .operator .gt) ((lex source).tokens.map Token.kind) =
      wordsOf (· ≠ .operator .gt) ((lex t).tokens.map Token.kind) :=
    wordsOf_formatSource h hp hfirst (.inl fun k hgt _ => by simp at hgt)
  have hclosers : wordsOf (· = .operator .gt) ((lex source).tokens.map Token.kind) =
      wordsOf (· = .operator .gt) ((lex t).tokens.map Token.kind) :=
    wordsOf_formatSource h hp hfirst (.inl fun k _ hk => by simpa using hk)
  refine ⟨?_, hother, fun hpairs => wordsOf_formatSource h hp hfirst (.inr hpairs)⟩
  -- the `>` and the other words are each the same on both sides
  have hfilter (keep : TokenKind → Bool) (ks : List TokenKind) :
      wordsOf keep ks = (wordsOf (fun _ => true) ks).filter keep := wordsOf_eq_filter ks
  rw [hfilter (· ≠ .operator .gt), hfilter (· ≠ .operator .gt)] at hother
  rw [hfilter (· = .operator .gt), hfilter (· = .operator .gt)] at hclosers
  have hsplit (ws : List TokenKind) :
      (ws.filter (· = .operator .gt) ++ ws.filter (· ≠ .operator .gt)).Perm ws := by
    simpa using List.filter_append_perm (fun k => decide (k = .operator .gt)) ws
  refine (hsplit _).symm.trans ?_
  rw [hclosers, hother]
  exact hsplit _

/-- A struct with a pair of types among type arguments, whose lists are closed by two tokens `>>`, and a `&&` before an
operand. -/
def pairSource : String := "struct S { V<(A<B>, C<D<E>>)> p; } fn f(V<V<i32>> x) -> i32 { return &&x >> 1; }"

theorem formatSource_words_pair : ∃ t p, formatSource pairSource {} = .ok t ∧
    parseTokens (lex pairSource).tokens {} = .ok p ∧ p.typesFirst = true ∧ PairsSettle 256 (lex pairSource).tokens ∧
      wordsOf (fun _ => true) ((lex pairSource).tokens.map Token.kind) =
        wordsOf (fun _ => true) ((lex t).tokens.map Token.kind) := by
  have hformat : (formatSource pairSource {}).toOption.isSome = true := by decide +kernel
  have hread : (parseTokens (lex pairSource).tokens {}).toOption.any Program.typesFirst = true := by decide +kernel
  have hpairs : PairsSettle 256 (lex pairSource).tokens := by decide +kernel
  cases h : formatSource pairSource {} with
  | error errors => simp [h, Except.toOption] at hformat
  | ok t =>
    cases hp : parseTokens (lex pairSource).tokens {} with
    | error errors => simp [hp, Except.toOption] at hread
    | ok p =>
      have hfirst : p.typesFirst = true := by simpa [hp, Except.toOption] using hread
      exact ⟨t, p, rfl, rfl, hfirst, hpairs, (formatSource_words h hp hfirst).2.2 hpairs⟩

/-- A `>>` closes two lists of type arguments before a pair of types in the second goes on. -/
def owedPairSource : String := "fn f(V<(A<B>>, C) x);"

/-- The words of a formatted source need not be in the order of the source: a `>` that was owed before the second type
of a pair is printed behind it. -/
theorem formatSource_moves_gt : ∃ t, formatSource owedPairSource {} = .ok t ∧
    (parseTokens (lex owedPairSource).tokens {}).toOption.any Program.typesFirst = true ∧
      wordsOf (fun _ => true) ((lex owedPairSource).tokens.map Token.kind) ≠
        wordsOf (fun _ => true) ((lex t).tokens.map Token.kind) := by
  have hmoved : ((formatSource owedPairSource {}).toOption.any fun t =>
      decide (wordsOf (fun _ => true) ((lex owedPairSource).tokens.map Token.kind) ≠
        wordsOf (fun _ => true) ((lex t).tokens.map Token.kind))) = true := by
    decide +kernel
  cases h : formatSource owedPairSource {} with
  | error errors => simp [h, Except.toOption] at hmoved
  | ok t => exact ⟨t, rfl, by decide +kernel, by simpa [h, Except.toOption] using hmoved⟩

end ElleFrontEnd
