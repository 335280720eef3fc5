import ElleFrontEnd.Proofs.StretchStmt

/-!
# Nodes of programs that are read again

Every type and every expression of a program that is read without errors recurs (`recurs_of_parseTokens`).
-/

namespace ElleFrontEnd

variable {limit room : Nat} {tokens : List Token} {ample : Prop} {text : List Char}

variable {s s' : ParseState} {g : Inner}

/-- Where there are no nodes, a parser needs to stay ready only. -/
theorem Finds.of_ready (hready : Ready s → Ready s') (ha : Advances s s') :
    Finds limit tokens ample room s [] room s' := fun hs =>
  have h := hready ⟨hs.clean, hs.owed⟩
  ⟨hs.of_advances (hs.toAlong.of_advances (h.clean.trans hs.clean.symm) ha) h.owed ha, by simp⟩

namespace Parser

theorem finds_modified {ms : List Modifier} (h : Modified s ms s') : Finds limit tokens ample room s [] room s' := by
  induction h with
  | nil _ _ => exact .refl
  | plain _ _ ih => exact Finds.token.trans ih
  | negated _ _ _ ih => exact (Finds.token.trans .token).trans ih

theorem finds_typeParams {names : List String} (h : typeParams.run s = (.ok names, s')) :
    Finds limit tokens ample room s [] room s' :=
  .of_ready (fun hs => keeps_typeParams hs h) (advances_run (Alike.advances fun us => Alike.typeParams (.refl us)) h)

theorem finds_declName {name : DeclName} (h : declName.run s = (.ok name, s')) :
    Finds limit tokens ample room s [] room s' :=
  .of_ready (fun hs => keeps_declName hs h) (advances_run (Alike.advances fun us => Alike.declName (.refl us)) h)

section
variable (hg : g.Settled) (hf : g.Finding limit tokens ample room)
include hf

theorem finds_returnType {o : Option TypeExpr} (h : (returnType g).run s = (.ok o, s')) :
    Finds limit tokens ample room s (optTypeNodes o) room s' := by
  rcases returnType_ok.1 h with ⟨-, t, rfl, ht⟩ | ⟨-, rfl, rfl⟩
  · exact Finds.token.trans (hf.type ht)
  · exact .refl

theorem finds_functionBody {ms : List Modifier} {name : DeclName} {o : Option Block}
    (h : (functionBody g ms name).run s = (.ok o, s')) :
    Finds limit tokens ample room s ((o.map Block.nodes).getD []) room s' := by
  rcases functionBody_ok.1 h with ⟨-, -, body, rfl, hb⟩ | ⟨-, rfl, rfl⟩
  · exact hf.block hb
  · exact .token

theorem finds_constDecl {ms : List Modifier} {c : ConstDecl} (h : (constDecl g ms).run s = (.ok c, s')) :
    Finds limit tokens ample room s c.nodes room s' := by
  obtain ⟨-, -, s₁, s₂, ht, -, -, hv, -, rfl⟩ := constDecl_ok.1 h
  have htype : Finds limit tokens ample room s.advance (optTypeNodes c.type) room s₁ := by
    rcases constType_ok.1 ht with ⟨-, -, hnone, rfl⟩ | ⟨-, t, hsome, ht⟩
    · exact Finds.refl.mono (by simp [hnone, optTypeNodes])
    · exact (hf.type ht).mono (by simp [hsome, optTypeNodes])
  exact (((((Finds.token.trans htype).trans .token).trans .token).trans (hf.expression hv)).trans .token).mono
    (by simp [ConstDecl.nodes])

theorem finds_structField {f : Field} (h : (structField g).run s = (.ok f, s')) :
    Finds limit tokens ample room s f.type.nodes room s' := by
  obtain ⟨-, ⟨-, -, ht⟩ | ⟨-, s₁, ht, -, rfl⟩⟩ := structField_ok.1 h
  · exact (Finds.token.trans .token).trans (hf.type ht)
  · exact ((hf.type ht).trans .token).mono (by simp)

theorem finds_fields {fs : List Field} (h : Fields g s fs s') :
    Finds limit tokens ample room s (fs.flatMap fun f => f.type.nodes) room s' := by
  induction h with
  | nil _ => exact .token
  | ended _ h _ _ ih => exact (((finds_structField hf h).trans .token).trans ih).mono (by simp)
  | last _ h _ he => exact he ▸ ((finds_structField hf h).trans .token).mono (by simp)

include hg

theorem finds_attributed {as : List Attribute} (h : Attributed g s as s') :
    Finds limit tokens ample room s (as.flatMap Attribute.nodes) room s' := by
  induction h with
  | nil _ => exact .refl
  | bare _ _ _ _ ih => exact ((Finds.token.trans .token).trans ih).mono (by simp [Attribute.nodes, optExprListNodes])
  | called _ _ _ ha _ ih =>
    exact (((Finds.token.trans .token).trans (finds_arguments hg hf ha)).trans ih).mono
      (by simp [Attribute.nodes, optExprListNodes])

theorem finds_functionDecl {ms : List Modifier} {f : FunctionDecl} (h : (functionDecl g ms).run s = (.ok f, s')) :
    Finds limit tokens ample room s f.nodes room s' := by
  obtain ⟨-, -, s₁, s₂, s₃, s₄, s₅, hn, ht, hp, ha, hr, hb⟩ := (functionDecl_ok hg).1 h
  have hhead : Finds limit tokens ample room s [] room s₂ :=
    (Finds.token.trans (finds_declName hn)).trans (finds_typeParams ht)
  have hsignature := (hhead.trans (finds_paramList hg hf hp)).trans (finds_attributed hg hf ha)
  exact ((hsignature.trans (finds_returnType hf hr)).trans (finds_functionBody hf hb)).mono
    (by simp [FunctionDecl.nodes])

theorem finds_structDecl {ms : List Modifier} {d : StructDecl} (h : (structDecl g ms).run s = (.ok d, s')) :
    Finds limit tokens ample room s d.nodes room s' := by
  obtain ⟨-, -, -, s₁, s₂, s₃, ht, ha, -, hfields, rfl⟩ := (structDecl_ok hg).1 h
  have hend : Finds limit tokens ample room s₃ [] room
      (if s₃.peek.kind = .punctuation .semicolon then s₃.advance else s₃) := by
    split
    · exact .token
    · exact .refl
  have hhead : Finds limit tokens ample room s (d.attributes.flatMap Attribute.nodes) room s₂ :=
    ((Finds.token.trans .token).trans (finds_typeParams ht)).trans (finds_attributed hg hf ha)
  exact (((hhead.trans .token).trans (finds_fields hf hfields)).trans hend).mono (by simp [StructDecl.nodes])

theorem finds_declaration (hq : g.Keeping) {d : Declaration} (h : (Parser.declaration g).run s = (.ok d, s')) :
    Finds limit tokens ample room s d.nodes room s' := by
  have hadv := advances_run (Alike.advances fun us => Alike.declaration (.refl us) (hg.steady us)) h
  have hempty : Finds limit tokens ample room s [] room s' := .of_ready (fun hs => keeps_declaration hg hq hs h) hadv
  obtain ⟨form, hform, rfl⟩ := declaration_ok.1 h
  rcases declarationForm_ok.1 hform with ⟨-, path, -, rfl⟩ | ⟨-, options, -, rfl⟩ | ⟨-, name, -, rfl⟩ |
    ⟨-, -, -, hmodified⟩
  · exact hempty
  · exact hempty
  · exact hempty
  obtain ⟨ms, s₁, hm, ⟨-, f, hdecl, rfl⟩ | ⟨-, c, hc, rfl⟩ | ⟨-, c, hc, rfl⟩⟩ := modifiedForm_ok.1 hmodified
  · refine ((finds_modified hm).trans (finds_functionDecl hg hf hdecl)).mono ?_
    unfold functionForm
    split <;> simp [Declaration.nodes]
  · exact (finds_modified hm).trans (finds_constDecl hf hc)
  · exact (finds_modified hm).trans (finds_structDecl hg hf hc)

end

/-- A program in which nothing has failed is made of nodes that recur. -/
theorem finds_declared {o : ParseOptions} {ds : List Declaration} (ht : Placed text { rest := tokens })
    (h : Declared (Inner.ofRoom o o.maxDepth) s ds s') (he : s'.errors = []) :
    Finds o.maxDepth tokens ample o.maxDepth s (ds.flatMap Declaration.nodes) o.maxDepth s' := by
  induction h with
  | nil _ => exact .refl
  | stray _ _ ih => exact Finds.token.trans (ih he)
  | cons _ _ hd hrest ih =>
    have hclean := (advances_of_declared (settled_ofRoom o o.maxDepth) hrest).errors_nil he
    have hf : (Inner.ofRoom ⟨o.maxDepth, false⟩ o.maxDepth).Finding o.maxDepth tokens ample o.maxDepth :=
      finding_ofRoom ht (Nat.le_refl _)
    have hfirst := finds_declaration (settled_ofRoom _ _) hf (keeps_ofRoom _ _) (declaration_stopping hclean hd)
    exact (hfirst.trans (ih he)).mono (by simp)

end Parser

/-- The nodes of a program that is read without errors are read again of the tokens that they cover. -/
theorem recurs_of_parseTokens {source : String} {o : ParseOptions} {p : Program}
    (h : parseTokens (lex source).tokens o = .ok p) : ∀ node ∈ p.nodes,
      node.Recurs o.maxDepth (lex source).tokens ((lex source).tokens.length + 3 < o.maxDepth) := by
  obtain ⟨s', he, hds⟩ := parseTokens_ok.1 h
  have hs : Stands (lex source).tokens { rest := (lex source).tokens } := ⟨⟨rfl, 0, Nat.zero_le _, rfl, rfl⟩, rfl⟩
  exact (Parser.finds_declared (placed_of_lex source) hds he ⟨hs, id⟩).2

end ElleFrontEnd
