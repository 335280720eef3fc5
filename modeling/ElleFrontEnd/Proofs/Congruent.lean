import ElleFrontEnd.Tree.Declaration
import Mathlib.Data.List.Forall2

/-!
# Congruent trees

Two trees are congruent if they are the same but for where their parts stood: they have the same form, and every name,
number, operator or other content at the same place.  The relation is given constructor by constructor and does not
mention any walk through trees, so that one can be judged by it.  It is an equivalence.
-/

namespace ElleFrontEnd

/-! ### Types and parameters -/

mutual

/-- Types that are the same but for their spans. -/
inductive TypeExpr.Congruent : TypeExpr → TypeExpr → Prop
  | primitive {s s' : Span} {type : PrimitiveType} : TypeExpr.Congruent (.primitive s type) (.primitive s' type)
  | named {s s' : Span} {name : String} : TypeExpr.Congruent (.named s name) (.named s' name)
  | array {s s' : Span} {element element' : TypeExpr} {dims : Nat} : TypeExpr.Congruent element element' →
    TypeExpr.Congruent (.array s element dims) (.array s' element' dims)
  | pointer {s s' : Span} {base base' : TypeExpr} {depth : Nat} : TypeExpr.Congruent base base' →
    TypeExpr.Congruent (.pointer s base depth) (.pointer s' base' depth)
  | generic {s s' : Span} {name : String} {args args' : List TypeExpr} : TypesCongruent args args' →
    TypeExpr.Congruent (.generic s name args) (.generic s' name args')
  | tuple {s s' : Span} {first first' second second' : TypeExpr} : TypeExpr.Congruent first first' →
    TypeExpr.Congruent second second' → TypeExpr.Congruent (.tuple s first second) (.tuple s' first' second')

/-- Lists of types that are the same but for spans. -/
inductive TypesCongruent : List TypeExpr → List TypeExpr → Prop
  | nil : TypesCongruent [] []
  | cons {t t' : TypeExpr} {ts ts' : List TypeExpr} : TypeExpr.Congruent t t' → TypesCongruent ts ts' →
    TypesCongruent (t :: ts) (t' :: ts')

end

/-- Parameters that are the same but for their spans. -/
inductive Param.Congruent : Param → Param → Prop
  | named {s s' : Span} {type type' : TypeExpr} {name : String} : type.Congruent type' →
    Param.Congruent (.named s type name) (.named s' type' name)
  | unnamed {s s' : Span} {type type' : TypeExpr} : type.Congruent type' →
    Param.Congruent (.unnamed s type) (.unnamed s' type')
  | variadic {s s' : Span} {name : Option String} : Param.Congruent (.variadic s name) (.variadic s' name)
  | noFormat {s s' : Span} {type type' : TypeExpr} {name : String} : type.Congruent type' →
    Param.Congruent (.noFormat s type name) (.noFormat s' type' name)

/-- Parameter lists that are the same but for spans. -/
inductive ParamList.Congruent : ParamList → ParamList → Prop
  | mk {metaName : Option String} {params params' : List Param} : List.Forall₂ Param.Congruent params params' →
    ParamList.Congruent ⟨metaName, params⟩ ⟨metaName, params'⟩

/-! ### Expressions and statements -/

mutual

/-- Expressions that are the same but for their spans. -/
inductive Expr.Congruent : Expr → Expr → Prop
  | binary {s s' : Span} {left left' right right' : Expr} {op : BinaryOp} : Expr.Congruent left left' →
    Expr.Congruent right right' → Expr.Congruent (.binary s left op right) (.binary s' left' op right')
  | unary {s s' : Span} {op : UnaryOp} {operand operand' : Expr} : Expr.Congruent operand operand' →
    Expr.Congruent (.unary s op operand) (.unary s' op operand')
  | call {s s' : Span} {callee callee' : Expr} {generics generics' : Option (List TypeExpr)}
    {args args' : List Expr} : Expr.Congruent callee callee' → Option.Rel TypesCongruent generics generics' →
    ExprsCongruent args args' →
    Expr.Congruent (.call s callee generics args) (.call s' callee' generics' args')
  | member {s s' : Span} {object object' : Expr} {name : String} : Expr.Congruent object object' →
    Expr.Congruent (.member s object name) (.member s' object' name)
  | subscript {s s' : Span} {object object' index index' : Expr} : Expr.Congruent object object' →
    Expr.Congruent index index' → Expr.Congruent (.subscript s object index) (.subscript s' object' index')
  /-- without a consequence -/
  | orElse {s s' : Span} {condition condition' alternative alternative' : Expr} :
    Expr.Congruent condition condition' → Expr.Congruent alternative alternative' →
    Expr.Congruent (.conditional s condition none alternative) (.conditional s' condition' none alternative')
  | conditional {s s' : Span} {condition condition' consequence consequence' alternative alternative' : Expr} :
    Expr.Congruent condition condition' → Expr.Congruent consequence consequence' →
    Expr.Congruent alternative alternative' →
    Expr.Congruent (.conditional s condition (some consequence) alternative)
      (.conditional s' condition' (some consequence') alternative')
  | cast {s s' : Span} {type type' : TypeExpr} {operand operand' : Expr} : type.Congruent type' →
    Expr.Congruent operand operand' → Expr.Congruent (.cast s type operand) (.cast s' type' operand')
  | paren {s s' : Span} {inner inner' : Expr} : Expr.Congruent inner inner' →
    Expr.Congruent (.paren s inner) (.paren s' inner')
  | ident {s s' : Span} {name : String} : Expr.Congruent (.ident s name) (.ident s' name)
  | qualified {s s' : Span} {path : List String} : Expr.Congruent (.qualified s path) (.qualified s' path)
  | rawName {s s' : Span} {raw : String} : Expr.Congruent (.rawName s raw) (.rawName s' raw)
  | number {s s' : Span} {literal : NumberLit} : Expr.Congruent (.number s literal) (.number s' literal)
  | str {s s' : Span} {parts : List StrPart} : Expr.Congruent (.str s parts) (.str s' parts)
  | bool {s s' : Span} {value : Bool} : Expr.Congruent (.bool s value) (.bool s' value)
  | char {s s' : Span} {part : StrPart} : Expr.Congruent (.char s part) (.char s' part)
  | array {s s' : Span} {element element' : Option TypeExpr} {isStatic : Bool} {elements elements' : List Expr} :
    Option.Rel TypeExpr.Congruent element element' → ExprsCongruent elements elements' →
    Expr.Congruent (.array s element isStatic elements) (.array s' element' isStatic elements')
  | tuple {s s' : Span} {first first' second second' : Expr} : Expr.Congruent first first' →
    Expr.Congruent second second' → Expr.Congruent (.tuple s first second) (.tuple s' first' second')
  | triple {s s' : Span} {first first' second second' third third' : Expr} : Expr.Congruent first first' →
    Expr.Congruent second second' → Expr.Congruent third third' →
    Expr.Congruent (.triple s first second third) (.triple s' first' second' third')
  | structLit {s s' : Span} {name : String} {generics generics' : Option (List TypeExpr)}
    {fields fields' : List FieldInit} : Option.Rel TypesCongruent generics generics' →
    FieldInitsCongruent fields fields' →
    Expr.Congruent (.structLit s name generics fields) (.structLit s' name generics' fields')
  | lambda {s s' : Span} {params params' : ParamList} {body body' : Expr} : params.Congruent params' →
    Expr.Congruent body body' → Expr.Congruent (.lambda s params body) (.lambda s' params' body')
  | blockLambda {s s' : Span} {params params' : ParamList} {body body' : Block} : params.Congruent params' →
    Block.Congruent body body' → Expr.Congruent (.blockLambda s params body) (.blockLambda s' params' body')
  | range {s s' : Span} {start start' stop stop' : Expr} {inclusive : Bool} : Expr.Congruent start start' →
    Expr.Congruent stop stop' → Expr.Congruent (.range s start stop inclusive) (.range s' start' stop' inclusive)
  | directive {s s' : Span} {directive directive' : Directive} : Directive.Congruent directive directive' →
    Expr.Congruent (.directive s directive) (.directive s' directive')
  | sigil {s s' : Span} {name : String} : Expr.Congruent (.sigil s name none) (.sigil s' name none)
  | sigilCall {s s' : Span} {name : String} {args args' : List Expr} : ExprsCongruent args args' →
    Expr.Congruent (.sigil s name (some args)) (.sigil s' name (some args'))

/-- Lists of expressions that are the same but for spans. -/
inductive ExprsCongruent : List Expr → List Expr → Prop
  | nil : ExprsCongruent [] []
  | cons {e e' : Expr} {es es' : List Expr} : Expr.Congruent e e' → ExprsCongruent es es' →
    ExprsCongruent (e :: es) (e' :: es')

/-- Fields of struct literals that are the same but for spans. -/
inductive FieldInitsCongruent : List FieldInit → List FieldInit → Prop
  | nil : FieldInitsCongruent [] []
  | cons {s s' : Span} {name : String} {value value' : Expr} {fields fields' : List FieldInit} :
    Expr.Congruent value value' → FieldInitsCongruent fields fields' →
    FieldInitsCongruent (.mk s name value :: fields) (.mk s' name value' :: fields')

/-- Directives that are the same but for spans. -/
inductive Directive.Congruent : Directive → Directive → Prop
  | len {value value' : Expr} : Expr.Congruent value value' → Directive.Congruent (.len value) (.len value')
  | size {type type' : TypeExpr} : type.Congruent type' → Directive.Congruent (.size type) (.size type')
  | ident {name : String} : Directive.Congruent (.ident name) (.ident name)
  | env : Directive.Congruent .env .env
  /-- without a count -/
  | allocOne {type type' : TypeExpr} : type.Congruent type' →
    Directive.Congruent (.alloc type none) (.alloc type' none)
  | alloc {type type' : TypeExpr} {count count' : Expr} : type.Congruent type' → Expr.Congruent count count' →
    Directive.Congruent (.alloc type (some count)) (.alloc type' (some count'))
  /-- without a count -/
  | reallocOne {pointer pointer' : Expr} {type type' : TypeExpr} : Expr.Congruent pointer pointer' →
    type.Congruent type' → Directive.Congruent (.realloc pointer type none) (.realloc pointer' type' none)
  | realloc {pointer pointer' : Expr} {type type' : TypeExpr} {count count' : Expr} :
    Expr.Congruent pointer pointer' → type.Congruent type' → Expr.Congruent count count' →
    Directive.Congruent (.realloc pointer type (some count)) (.realloc pointer' type' (some count'))
  | free {value value' : Expr} : Expr.Congruent value value' → Directive.Congruent (.free value) (.free value')
  | setAllocator {value value' : Expr} : Expr.Congruent value value' →
    Directive.Congruent (.setAllocator value) (.setAllocator value')
  | resetAllocator : Directive.Congruent .resetAllocator .resetAllocator

/-- Blocks that are the same but for their spans. -/
inductive Block.Congruent : Block → Block → Prop
  | mk {s s' : Span} {statements statements' : List Stmt} : StmtsCongruent statements statements' →
    Block.Congruent (.mk s statements) (.mk s' statements')

/-- Lists of statements that are the same but for spans. -/
inductive StmtsCongruent : List Stmt → List Stmt → Prop
  | nil : StmtsCongruent [] []
  | cons {a a' : Stmt} {rest rest' : List Stmt} : Stmt.Congruent a a' → StmtsCongruent rest rest' →
    StmtsCongruent (a :: rest) (a' :: rest')

/-- Statements that are the same but for their spans. -/
inductive Stmt.Congruent : Stmt → Stmt → Prop
  | expr {s s' : Span} {value value' : Expr} : Expr.Congruent value value' →
    Stmt.Congruent (.expr s value) (.expr s' value')
  | varDecl {s s' : Span} {binding : Binding} {type type' : Option TypeExpr} {name : String} :
    Option.Rel TypeExpr.Congruent type type' →
    Stmt.Congruent (.varDecl s binding type name none) (.varDecl s' binding type' name none)
  | varInit {s s' : Span} {binding : Binding} {type type' : Option TypeExpr} {name : String} {init init' : Expr} :
    Option.Rel TypeExpr.Congruent type type' → Expr.Congruent init init' →
    Stmt.Congruent (.varDecl s binding type name (some init)) (.varDecl s' binding type' name (some init'))
  | assign {s s' : Span} {target target' value value' : Expr} {op : AssignOp} : Expr.Congruent target target' →
    Expr.Congruent value value' → Stmt.Congruent (.assign s target op value) (.assign s' target' op value')
  | ifElse {s s' : Span} {condition condition' : Expr} {body body' : Block} {otherwise otherwise' : Else} :
    Expr.Congruent condition condition' → Block.Congruent body body' → Else.Congruent otherwise otherwise' →
    Stmt.Congruent (.ifElse s condition body otherwise) (.ifElse s' condition' body' otherwise')
  | whileLoop {s s' : Span} {condition condition' : Expr} {body body' : Block} :
    Expr.Congruent condition condition' → Block.Congruent body body' →
    Stmt.Congruent (.whileLoop s condition body) (.whileLoop s' condition' body')
  | forLoop {s s' : Span} {init init' : ForInit} {condition condition' : Expr} {step step' : ForStep}
    {body body' : Block} : ForInit.Congruent init init' → Expr.Congruent condition condition' →
    ForStep.Congruent step step' → Block.Congruent body body' →
    Stmt.Congruent (.forLoop s init condition step body) (.forLoop s' init' condition' step' body')
  | forEach {s s' : Span} {name : String} {iterable iterable' : Expr} {body body' : Block} :
    Expr.Congruent iterable iterable' → Block.Congruent body body' →
    Stmt.Congruent (.forEach s name iterable body) (.forEach s' name iterable' body')
  | defer {s s' : Span} {value value' : Expr} : Expr.Congruent value value' →
    Stmt.Congruent (.defer s value) (.defer s' value')
  | returnNone {s s' : Span} : Stmt.Congruent (.returnValue s none) (.returnValue s' none)
  | returnValue {s s' : Span} {value value' : Expr} : Expr.Congruent value value' →
    Stmt.Congruent (.returnValue s (some value)) (.returnValue s' (some value'))
  | breakLoop {s s' : Span} : Stmt.Congruent (.breakLoop s) (.breakLoop s')
  | continueLoop {s s' : Span} : Stmt.Congruent (.continueLoop s) (.continueLoop s')
  | block {s s' : Span} {statements statements' : List Stmt} : StmtsCongruent statements statements' →
    Stmt.Congruent (.block s statements) (.block s' statements')
  | buffer {s s' : Span} {type type' : TypeExpr} {name : String} {size size' : Expr} : type.Congruent type' →
    Expr.Congruent size size' → Stmt.Congruent (.buffer s type name size) (.buffer s' type' name size')

/-- What follows the block of an `if`, the same but for spans. -/
inductive Else.Congruent : Else → Else → Prop
  | absent : Else.Congruent .absent .absent
  | block {body body' : Block} : Block.Congruent body body' → Else.Congruent (.block body) (.block body')
  | elseIf {s s' : Span} {condition condition' : Expr} {body body' : Block} {otherwise otherwise' : Else} :
    Expr.Congruent condition condition' → Block.Congruent body body' → Else.Congruent otherwise otherwise' →
    Else.Congruent (.elseIf s condition body otherwise) (.elseIf s' condition' body' otherwise')

/-- What a `for` loop starts with, the same but for spans. -/
inductive ForInit.Congruent : ForInit → ForInit → Prop
  | varDecl {s s' : Span} {binding : Binding} {type type' : Option TypeExpr} {name : String} :
    Option.Rel TypeExpr.Congruent type type' →
    ForInit.Congruent (.varDecl s binding type name none) (.varDecl s' binding type' name none)
  | varInit {s s' : Span} {binding : Binding} {type type' : Option TypeExpr} {name : String} {init init' : Expr} :
    Option.Rel TypeExpr.Congruent type type' → Expr.Congruent init init' →
    ForInit.Congruent (.varDecl s binding type name (some init)) (.varDecl s' binding type' name (some init'))
  | expr {value value' : Expr} : Expr.Congruent value value' → ForInit.Congruent (.expr value) (.expr value')

/-- What a `for` loop does after each round, the same but for spans. -/
inductive ForStep.Congruent : ForStep → ForStep → Prop
  | assign {s s' : Span} {target target' value value' : Expr} {op : AssignOp} : Expr.Congruent target target' →
    Expr.Congruent value value' → ForStep.Congruent (.assign s target op value) (.assign s' target' op value')
  | expr {value value' : Expr} : Expr.Congruent value value' → ForStep.Congruent (.expr value) (.expr value')

end

/-! ### Declarations -/

/-- Declared names that are the same but for their spans. -/
inductive DeclName.Congruent : DeclName → DeclName → Prop
  | plain {s s' : Span} {name : String} : DeclName.Congruent (.plain s name) (.plain s' name)
  | qualified {s s' : Span} {path : List String} : DeclName.Congruent (.qualified s path) (.qualified s' path)
  | rawName {s s' : Span} {raw : String} : DeclName.Congruent (.rawName s raw) (.rawName s' raw)

/-- Attributes that are the same but for their spans. -/
inductive Attribute.Congruent : Attribute → Attribute → Prop
  | plain {s s' : Span} {name : String} : Attribute.Congruent ⟨s, name, none⟩ ⟨s', name, none⟩
  | call {s s' : Span} {name : String} {args args' : List Expr} : ExprsCongruent args args' →
    Attribute.Congruent ⟨s, name, some args⟩ ⟨s', name, some args'⟩

/-- Functions that are the same but for spans. -/
inductive FunctionDecl.Congruent : FunctionDecl → FunctionDecl → Prop
  | mk {modifiers : List Modifier} {name name' : DeclName} {generics : List String} {params params' : ParamList}
    {attributes attributes' : List Attribute} {returnType returnType' : Option TypeExpr} {body body' : Option Block} :
    name.Congruent name' → params.Congruent params' → List.Forall₂ Attribute.Congruent attributes attributes' →
    Option.Rel TypeExpr.Congruent returnType returnType' → Option.Rel Block.Congruent body body' →
    FunctionDecl.Congruent ⟨modifiers, name, generics, params, attributes, returnType, body⟩
      ⟨modifiers, name', generics, params', attributes', returnType', body'⟩

/-- Constants that are the same but for spans. -/
inductive ConstDecl.Congruent : ConstDecl → ConstDecl → Prop
  | mk {modifiers : List Modifier} {type type' : Option TypeExpr} {name : String} {value value' : Expr} :
    Option.Rel TypeExpr.Congruent type type' → value.Congruent value' →
    ConstDecl.Congruent ⟨modifiers, type, name, value⟩ ⟨modifiers, type', name, value'⟩

/-- Fields that are the same but for their spans. -/
inductive Field.Congruent : Field → Field → Prop
  | mk {s s' : Span} {type type' : TypeExpr} {name : String} : type.Congruent type' →
    Field.Congruent ⟨s, type, name⟩ ⟨s', type', name⟩

/-- Structs that are the same but for spans. -/
inductive StructDecl.Congruent : StructDecl → StructDecl → Prop
  | mk {modifiers : List Modifier} {name : String} {generics : List String} {attributes attributes' : List Attribute}
    {fields fields' : List Field} : List.Forall₂ Attribute.Congruent attributes attributes' →
    List.Forall₂ Field.Congruent fields fields' →
    StructDecl.Congruent ⟨modifiers, name, generics, attributes, fields⟩
      ⟨modifiers, name, generics, attributes', fields'⟩

/-- Declarations that are the same but for their spans. -/
inductive Declaration.Congruent : Declaration → Declaration → Prop
  | importModule {s s' : Span} {path : ModulePath} :
    Declaration.Congruent (.importModule s path) (.importModule s' path)
  | globalOptions {s s' : Span} {options : List GlobalOption} :
    Declaration.Congruent (.globalOptions s options) (.globalOptions s' options)
  | moduleName {s s' : Span} {name : String} : Declaration.Congruent (.moduleName s name) (.moduleName s' name)
  | function {s s' : Span} {d d' : FunctionDecl} : d.Congruent d' →
    Declaration.Congruent (.function s d) (.function s' d')
  | externalFunction {s s' : Span} {d d' : FunctionDecl} : d.Congruent d' →
    Declaration.Congruent (.externalFunction s d) (.externalFunction s' d')
  | constant {s s' : Span} {d d' : ConstDecl} : d.Congruent d' →
    Declaration.Congruent (.constant s d) (.constant s' d')
  | struct {s s' : Span} {d d' : StructDecl} : d.Congruent d' → Declaration.Congruent (.struct s d) (.struct s' d')

/-- Programs that are the same but for their spans. -/
inductive Program.Congruent : Program → Program → Prop
  | mk {declarations declarations' : List Declaration} :
    List.Forall₂ Declaration.Congruent declarations declarations' →
    Program.Congruent ⟨declarations⟩ ⟨declarations'⟩

/-! ### Trees congruent to a common one -/

theorem rel_of_common {α : Type} {R : α → α → Prop} {o o' o'' : Option α} (h : Option.Rel R o o'')
    (k : Option.Rel R o' o'') (hR : ∀ a b c, R a c → R b c → R a b) : Option.Rel R o o' := by
  cases h with
  | none =>
    cases k
    exact .none
  | some h =>
    cases k with
    | some k => exact .some (hR _ _ _ h k)

theorem forall₂_of_common {α : Type} {R : α → α → Prop} {l l' l'' : List α} (h : List.Forall₂ R l l'')
    (k : List.Forall₂ R l' l'') (hR : ∀ a b c, R a c → R b c → R a b) : List.Forall₂ R l l' := by
  induction h generalizing l' with
  | nil =>
    cases k
    exact .nil
  | cons h _ ih =>
    cases k with
    | cons k ks => exact .cons (hR _ _ _ h k) (ih ks)

mutual

theorem TypeExpr.Congruent.of_common : {t u c : TypeExpr} → t.Congruent c → u.Congruent c → t.Congruent u
  | _, _, _, .primitive, .primitive => .primitive
  | _, _, _, .named, .named => .named
  | _, _, _, .array h, .array k => .array (h.of_common k)
  | _, _, _, .pointer h, .pointer k => .pointer (h.of_common k)
  | _, _, _, .generic h, .generic k => .generic (h.of_common k)
  | _, _, _, .tuple h₁ h₂, .tuple k₁ k₂ => .tuple (h₁.of_common k₁) (h₂.of_common k₂)

theorem TypesCongruent.of_common : {ts us c : List TypeExpr} → TypesCongruent ts c → TypesCongruent us c →
    TypesCongruent ts us
  | _, _, _, .nil, .nil => .nil
  | _, _, _, .cons h hs, .cons k ks => .cons (h.of_common k) (hs.of_common ks)

end

theorem Param.Congruent.of_common : {p q c : Param} → p.Congruent c → q.Congruent c → p.Congruent q
  | _, _, _, .named h, .named k => .named (h.of_common k)
  | _, _, _, .unnamed h, .unnamed k => .unnamed (h.of_common k)
  | _, _, _, .variadic, .variadic => .variadic
  | _, _, _, .noFormat h, .noFormat k => .noFormat (h.of_common k)

theorem ParamList.Congruent.of_common : {p q c : ParamList} → p.Congruent c → q.Congruent c → p.Congruent q
  | _, _, _, .mk h, .mk k => .mk (forall₂_of_common h k fun _ _ _ => Param.Congruent.of_common)

mutual

theorem Expr.Congruent.of_common : {e f c : Expr} → e.Congruent c → f.Congruent c → e.Congruent f
  | _, _, _, .binary h₁ h₂, .binary k₁ k₂ => .binary (h₁.of_common k₁) (h₂.of_common k₂)
  | _, _, _, .unary h, .unary k => .unary (h.of_common k)
  | _, _, _, .call h hg hs, .call k kg ks =>
    .call (h.of_common k) (rel_of_common hg kg fun _ _ _ => TypesCongruent.of_common) (hs.of_common ks)
  | _, _, _, .member h, .member k => .member (h.of_common k)
  | _, _, _, .subscript h₁ h₂, .subscript k₁ k₂ => .subscript (h₁.of_common k₁) (h₂.of_common k₂)
  | _, _, _, .orElse h₁ h₂, .orElse k₁ k₂ => .orElse (h₁.of_common k₁) (h₂.of_common k₂)
  | _, _, _, .conditional h₁ h₂ h₃, .conditional k₁ k₂ k₃ =>
    .conditional (h₁.of_common k₁) (h₂.of_common k₂) (h₃.of_common k₃)
  | _, _, _, .cast ht h, .cast kt k => .cast (ht.of_common kt) (h.of_common k)
  | _, _, _, .paren h, .paren k => .paren (h.of_common k)
  | _, _, _, .ident, .ident => .ident
  | _, _, _, .qualified, .qualified => .qualified
  | _, _, _, .rawName, .rawName => .rawName
  | _, _, _, .number, .number => .number
  | _, _, _, .str, .str => .str
  | _, _, _, .bool, .bool => .bool
  | _, _, _, .char, .char => .char
  | _, _, _, .array ht hs, .array kt ks =>
    .array (rel_of_common ht kt fun _ _ _ => TypeExpr.Congruent.of_common) (hs.of_common ks)
  | _, _, _, .tuple h₁ h₂, .tuple k₁ k₂ => .tuple (h₁.of_common k₁) (h₂.of_common k₂)
  | _, _, _, .triple h₁ h₂ h₃, .triple k₁ k₂ k₃ => .triple (h₁.of_common k₁) (h₂.of_common k₂) (h₃.of_common k₃)
  | _, _, _, .structLit hg hs, .structLit kg ks =>
    .structLit (rel_of_common hg kg fun _ _ _ => TypesCongruent.of_common) (hs.of_common ks)
  | _, _, _, .lambda hp h, .lambda kp k => .lambda (hp.of_common kp) (h.of_common k)
  | _, _, _, .blockLambda hp h, .blockLambda kp k => .blockLambda (hp.of_common kp) (h.of_common k)
  | _, _, _, .range h₁ h₂, .range k₁ k₂ => .range (h₁.of_common k₁) (h₂.of_common k₂)
  | _, _, _, .directive h, .directive k => .directive (h.of_common k)
  | _, _, _, .sigil, .sigil => .sigil
  | _, _, _, .sigilCall hs, .sigilCall ks => .sigilCall (hs.of_common ks)

theorem ExprsCongruent.of_common : {es fs c : List Expr} → ExprsCongruent es c → ExprsCongruent fs c →
    ExprsCongruent es fs
  | _, _, _, .nil, .nil => .nil
  | _, _, _, .cons h hs, .cons k ks => .cons (h.of_common k) (hs.of_common ks)

theorem FieldInitsCongruent.of_common : {fs gs c : List FieldInit} → FieldInitsCongruent fs c →
    FieldInitsCongruent gs c → FieldInitsCongruent fs gs
  | _, _, _, .nil, .nil => .nil
  | _, _, _, .cons h hs, .cons k ks => .cons (h.of_common k) (hs.of_common ks)

theorem Directive.Congruent.of_common : {d d' c : Directive} → d.Congruent c → d'.Congruent c → d.Congruent d'
  | _, _, _, .len h, .len k => .len (h.of_common k)
  | _, _, _, .size ht, .size kt => .size (ht.of_common kt)
  | _, _, _, .ident, .ident => .ident
  | _, _, _, .env, .env => .env
  | _, _, _, .allocOne ht, .allocOne kt => .allocOne (ht.of_common kt)
  | _, _, _, .alloc ht h, .alloc kt k => .alloc (ht.of_common kt) (h.of_common k)
  | _, _, _, .reallocOne h ht, .reallocOne k kt => .reallocOne (h.of_common k) (ht.of_common kt)
  | _, _, _, .realloc h₁ ht h₂, .realloc k₁ kt k₂ => .realloc (h₁.of_common k₁) (ht.of_common kt) (h₂.of_common k₂)
  | _, _, _, .free h, .free k => .free (h.of_common k)
  | _, _, _, .setAllocator h, .setAllocator k => .setAllocator (h.of_common k)
  | _, _, _, .resetAllocator, .resetAllocator => .resetAllocator

theorem Block.Congruent.of_common : {b b' c : Block} → b.Congruent c → b'.Congruent c → b.Congruent b'
  | _, _, _, .mk hs, .mk ks => .mk (hs.of_common ks)

theorem StmtsCongruent.of_common : {as bs c : List Stmt} → StmtsCongruent as c → StmtsCongruent bs c →
    StmtsCongruent as bs
  | _, _, _, .nil, .nil => .nil
  | _, _, _, .cons h hs, .cons k ks => .cons (h.of_common k) (hs.of_common ks)

theorem Stmt.Congruent.of_common : {a b c : Stmt} → a.Congruent c → b.Congruent c → a.Congruent b
  | _, _, _, .expr h, .expr k => .expr (h.of_common k)
  | _, _, _, .varDecl ht, .varDecl kt => .varDecl (rel_of_common ht kt fun _ _ _ => TypeExpr.Congruent.of_common)
  | _, _, _, .varInit ht h, .varInit kt k =>
    .varInit (rel_of_common ht kt fun _ _ _ => TypeExpr.Congruent.of_common) (h.of_common k)
  | _, _, _, .assign h₁ h₂, .assign k₁ k₂ => .assign (h₁.of_common k₁) (h₂.of_common k₂)
  | _, _, _, .ifElse h hb ho, .ifElse k kb ko => .ifElse (h.of_common k) (hb.of_common kb) (ho.of_common ko)
  | _, _, _, .whileLoop h hb, .whileLoop k kb => .whileLoop (h.of_common k) (hb.of_common kb)
  | _, _, _, .forLoop hi h hs hb, .forLoop ki k ks kb =>
    .forLoop (hi.of_common ki) (h.of_common k) (hs.of_common ks) (hb.of_common kb)
  | _, _, _, .forEach h hb, .forEach k kb => .forEach (h.of_common k) (hb.of_common kb)
  | _, _, _, .defer h, .defer k => .defer (h.of_common k)
  | _, _, _, .returnNone, .returnNone => .returnNone
  | _, _, _, .returnValue h, .returnValue k => .returnValue (h.of_common k)
  | _, _, _, .breakLoop, .breakLoop => .breakLoop
  | _, _, _, .continueLoop, .continueLoop => .continueLoop
  | _, _, _, .block hs, .block ks => .block (hs.of_common ks)
  | _, _, _, .buffer ht h, .buffer kt k => .buffer (ht.of_common kt) (h.of_common k)

theorem Else.Congruent.of_common : {o o' c : Else} → o.Congruent c → o'.Congruent c → o.Congruent o'
  | _, _, _, .absent, .absent => .absent
  | _, _, _, .block hb, .block kb => .block (hb.of_common kb)
  | _, _, _, .elseIf h hb ho, .elseIf k kb ko => .elseIf (h.of_common k) (hb.of_common kb) (ho.of_common ko)

theorem ForInit.Congruent.of_common : {i i' c : ForInit} → i.Congruent c → i'.Congruent c → i.Congruent i'
  | _, _, _, .varDecl ht, .varDecl kt => .varDecl (rel_of_common ht kt fun _ _ _ => TypeExpr.Congruent.of_common)
  | _, _, _, .varInit ht h, .varInit kt k =>
    .varInit (rel_of_common ht kt fun _ _ _ => TypeExpr.Congruent.of_common) (h.of_common k)
  | _, _, _, .expr h, .expr k => .expr (h.of_common k)

theorem ForStep.Congruent.of_common : {i i' c : ForStep} → i.Congruent c → i'.Congruent c → i.Congruent i'
  | _, _, _, .assign h₁ h₂, .assign k₁ k₂ => .assign (h₁.of_common k₁) (h₂.of_common k₂)
  | _, _, _, .expr h, .expr k => .expr (h.of_common k)

end

theorem DeclName.Congruent.of_common : {n n' c : DeclName} → n.Congruent c → n'.Congruent c → n.Congruent n'
  | _, _, _, .plain, .plain => .plain
  | _, _, _, .qualified, .qualified => .qualified
  | _, _, _, .rawName, .rawName => .rawName

theorem Attribute.Congruent.of_common : {a b c : Attribute} → a.Congruent c → b.Congruent c → a.Congruent b
  | _, _, _, .plain, .plain => .plain
  | _, _, _, .call h, .call k => .call (h.of_common k)

theorem FunctionDecl.Congruent.of_common : {d d' c : FunctionDecl} → d.Congruent c → d'.Congruent c → d.Congruent d'
  | _, _, _, .mk hn hp ha ht hb, .mk kn kp ka kt kb =>
    .mk (hn.of_common kn) (hp.of_common kp)
      (forall₂_of_common ha ka fun _ _ _ => Attribute.Congruent.of_common)
      (rel_of_common ht kt fun _ _ _ => TypeExpr.Congruent.of_common)
      (rel_of_common hb kb fun _ _ _ => Block.Congruent.of_common)

theorem ConstDecl.Congruent.of_common : {d d' c : ConstDecl} → d.Congruent c → d'.Congruent c → d.Congruent d'
  | _, _, _, .mk ht h, .mk kt k =>
    .mk (rel_of_common ht kt fun _ _ _ => TypeExpr.Congruent.of_common) (h.of_common k)

theorem Field.Congruent.of_common : {d d' c : Field} → d.Congruent c → d'.Congruent c → d.Congruent d'
  | _, _, _, .mk ht, .mk kt => .mk (ht.of_common kt)

theorem StructDecl.Congruent.of_common : {d d' c : StructDecl} → d.Congruent c → d'.Congruent c → d.Congruent d'
  | _, _, _, .mk ha hf, .mk ka kf =>
    .mk (forall₂_of_common ha ka fun _ _ _ => Attribute.Congruent.of_common)
      (forall₂_of_common hf kf fun _ _ _ => Field.Congruent.of_common)

theorem Declaration.Congruent.of_common : {d d' c : Declaration} → d.Congruent c → d'.Congruent c → d.Congruent d'
  | _, _, _, .importModule, .importModule => .importModule
  | _, _, _, .globalOptions, .globalOptions => .globalOptions
  | _, _, _, .moduleName, .moduleName => .moduleName
  | _, _, _, .function h, .function k => .function (h.of_common k)
  | _, _, _, .externalFunction h, .externalFunction k => .externalFunction (h.of_common k)
  | _, _, _, .constant h, .constant k => .constant (h.of_common k)
  | _, _, _, .struct h, .struct k => .struct (h.of_common k)

theorem Program.Congruent.of_common : {p q c : Program} → p.Congruent c → q.Congruent c → p.Congruent q
  | _, _, _, .mk h, .mk k => .mk (forall₂_of_common h k fun _ _ _ => Declaration.Congruent.of_common)

end ElleFrontEnd
