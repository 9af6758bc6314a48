import Cartridge.Pascal.Program
import Cartridge.Pascal.Token

/-!
# The grammar

Which kinds of tokens spell an expression, a statement or a program, and what
they stand for. The rules say nothing about reading from left to right or about
looking ahead: a phrase is the concatenation of its parts.

Sums and products are left recursive, so operators of one level associate to
the left. A statement is marked as dangling if it ends in an `if` without an
`else`; such a statement may not stand in front of `else`, which leaves an
`else` to the nearest `if` that has none.
-/

namespace Cartridge.Pascal.Grammar

-- ---------------------------------------------------------------------------
-- Expressions
-- ---------------------------------------------------------------------------

inductive LiteralToken : Kind → Literal → Prop
  | int : LiteralToken (.int v) (.int v)
  | str : LiteralToken (.str s) (.str s)
  | true : LiteralToken (.keyword .true) (.bool .true)
  | false : LiteralToken (.keyword .false) (.bool .false)

inductive RelationToken : Kind → Operator → Prop
  | eq : RelationToken (.sign .eq) .eq
  | ne : RelationToken (.sign .ne) .ne
  | lt : RelationToken (.sign .lt) .lt
  | le : RelationToken (.sign .le) .le
  | gt : RelationToken (.sign .gt) .gt
  | ge : RelationToken (.sign .ge) .ge

inductive AdditiveToken : Kind → Operator → Prop
  | add : AdditiveToken (.sign .plus) .add
  | sub : AdditiveToken (.sign .minus) .sub
  | or : AdditiveToken (.keyword .or) .or

inductive MultiplicativeToken : Kind → Operator → Prop
  | mul : MultiplicativeToken (.sign .star) .mul
  | slash : MultiplicativeToken (.sign .slash) .slash
  | div : MultiplicativeToken (.keyword .div) .div
  | mod : MultiplicativeToken (.keyword .mod) .mod
  | and : MultiplicativeToken (.keyword .and) .and

mutual

inductive IsExpr : List Kind → Expr → Prop
  | additive : IsAdditive ks e → IsExpr ks e
  /-- Relations do not associate. -/
  | relation : IsAdditive ls l → RelationToken k op → IsAdditive rs r →
      IsExpr (ls ++ k :: rs) (.binary op l r)

inductive IsAdditive : List Kind → Expr → Prop
  | multiplicative : IsMultiplicative ks e → IsAdditive ks e
  | more : IsAdditive ls l → AdditiveToken k op → IsMultiplicative rs r →
      IsAdditive (ls ++ k :: rs) (.binary op l r)

inductive IsMultiplicative : List Kind → Expr → Prop
  | factor : IsFactor ks e → IsMultiplicative ks e
  | more : IsMultiplicative ls l → MultiplicativeToken k op → IsFactor rs r →
      IsMultiplicative (ls ++ k :: rs) (.binary op l r)

inductive IsFactor : List Kind → Expr → Prop
  | literal : LiteralToken k v → IsFactor [k] (.lit v)
  | name : IsFactor [.ident x] (.ident x)
  | call : IsArguments ks args → IsFactor (.ident f :: ks) (.call f args)
  | parens : IsExpr ks e → IsFactor (.sign .openParen :: (ks ++ [.sign .closeParen])) e
  /-- A minus in front of a number is part of the number. -/
  | negative : IsFactor ks (.int v) → IsFactor (.sign .minus :: ks) (.int (-v))
  /-- A minus in front of anything else subtracts from zero. -/
  | minus : IsFactor ks e → (∀ v, e ≠ .int v) →
      IsFactor (.sign .minus :: ks) (.binary .sub (.int 0) e)

/-- Arguments with their parentheses. -/
inductive IsArguments : List Kind → List Expr → Prop
  | none : IsArguments [.sign .openParen, .sign .closeParen] []
  | some : IsExprs ks es → IsArguments (.sign .openParen :: (ks ++ [.sign .closeParen])) es

/-- Expressions with a comma between them. -/
inductive IsExprs : List Kind → List Expr → Prop
  | one : IsExpr ks e → IsExprs ks [e]
  | more : IsExpr ks e → IsExprs ls es → IsExprs (ks ++ .sign .comma :: ls) (e :: es)

end

-- ---------------------------------------------------------------------------
-- Statements
-- ---------------------------------------------------------------------------

/-- The statements of a branch: a block gives up its own, one level deep. -/
inductive IsBranch : Option Stmt → List Stmt → Prop
  | empty : IsBranch none []
  | block : IsBranch (some (.block body)) body
  | single : (∀ body, s ≠ .block body) → IsBranch (some s) [s]

mutual

/-- Statements, `none` if they are empty, marked by whether they dangle. -/
inductive IsStatement : Bool → List Kind → Option Stmt → Prop
  | empty : IsStatement false [] none
  | assign : IsExpr ks e →
      IsStatement false (.ident x :: .sign .assign :: ks) (some (.assign x e))
  | call : IsStatement false [.ident f] (some (.eval (.call f [])))
  | callWith : IsArguments ks args →
      IsStatement false (.ident f :: ks) (some (.eval (.call f args)))
  | block : IsBlock ks body → IsStatement false ks (some (.block body))
  | ifThen : IsExpr cs c → IsStatement dangling ks s → IsBranch s body →
      IsStatement true (.keyword .if_ :: (cs ++ .keyword .then_ :: ks)) (some (.ifThen c body))
  | ifElse : IsExpr cs c → IsStatement false ks s → IsBranch s yes →
      IsStatement dangling ls s' → IsBranch s' no →
      IsStatement dangling
        (.keyword .if_ :: (cs ++ .keyword .then_ :: (ks ++ .keyword .else_ :: ls)))
        (some (.ifElse c yes no))
  | loop : IsExpr cs c → IsStatement dangling ks s → IsBranch s body →
      IsStatement dangling (.keyword .while :: (cs ++ .keyword .do_ :: ks))
        (some (.loop c body))

/-- Statements with a semicolon between them; the empty ones leave nothing behind. -/
inductive IsStatements : List Kind → List Stmt → Prop
  | one : IsStatement dangling ks s → IsStatements ks s.toList
  | more : IsStatement dangling ks s → IsStatements ls ss →
      IsStatements (ks ++ .sign .semicolon :: ls) (s.toList ++ ss)

inductive IsBlock : List Kind → List Stmt → Prop
  | intro : IsStatements ks ss → IsBlock (.keyword .begin :: (ks ++ [.keyword .end_])) ss

end

-- ---------------------------------------------------------------------------
-- Declarations
-- ---------------------------------------------------------------------------

inductive IsConstant : List Kind → Literal → Prop
  | literal : LiteralToken k v → IsConstant [k] v
  | negative : IsConstant [.sign .minus, .int v] (.int (-v))

/-- One constant or more, each with its semicolon. -/
inductive IsConstants : List Kind → Constants → Prop
  | one : IsConstant ks v →
      IsConstants (.ident x :: .sign .eq :: (ks ++ [.sign .semicolon])) [(x, v)]
  | more : IsConstant ks v → IsConstants ls cs →
      IsConstants (.ident x :: .sign .eq :: (ks ++ .sign .semicolon :: ls)) ((x, v) :: cs)

inductive IsNames : List Kind → Prop
  | one : IsNames [.ident x]
  | more : IsNames ks → IsNames (.ident x :: .sign .comma :: ks)

/-- One line of variables or more; nothing is kept of them. -/
inductive IsVars : List Kind → Prop
  | one : IsNames ks → IsVars (ks ++ [.sign .colon, .ident type, .sign .semicolon])
  | more : IsNames ks → IsVars ls →
      IsVars (ks ++ .sign .colon :: .ident type :: .sign .semicolon :: ls)

inductive IsPath : List Kind → String → Prop
  | one : IsPath [.ident x] x
  | more : IsPath ks path → IsPath (ks ++ [.sign .dot, .ident x]) (path ++ "." ++ x)

/-- What a routine requires; without a clause it is the lowest tier. -/
inductive IsRequirement : List Kind → Tier → Option String → Prop
  | none : IsRequirement [] .l1 none
  | tier : IsPath ks path → Tier.ofText? path = some tier →
      IsRequirement (.keyword .requires :: (ks ++ [.sign .semicolon])) tier none
  | via : IsPath ks path → Tier.ofText? path = some tier → IsPath ls extension →
      IsRequirement (.keyword .requires :: (ks ++ .keyword .via :: (ls ++ [.sign .semicolon])))
        tier (some extension)

inductive IsParens : List Kind → Prop
  | none : IsParens []
  | some : IsParens [.sign .openParen, .sign .closeParen]

inductive IsProcedure : List Kind → Routine → Prop
  | intro : IsParens ps → IsRequirement rs tier extension? → IsBlock bs body →
      IsProcedure (.keyword .procedure :: .ident name ::
        (ps ++ .sign .semicolon :: (rs ++ (bs ++ [.sign .semicolon]))))
        ⟨name, body, tier, extension?⟩

/-- Declarations in any order, with the constants and routines they introduce. -/
inductive IsDeclarations : List Kind → Constants → List Routine → Prop
  | none : IsDeclarations [] [] []
  | const : IsConstants ks cs → IsDeclarations ls cs' rs →
      IsDeclarations (.keyword .const :: (ks ++ ls)) (cs ++ cs') rs
  | var : IsVars ks → IsDeclarations ls cs rs → IsDeclarations (.keyword .var :: (ks ++ ls)) cs rs
  | procedure : IsProcedure ks r → IsDeclarations ls cs rs →
      IsDeclarations (ks ++ ls) cs (r :: rs)

/-- The program's name, `main` if there is no header. -/
inductive IsHeader : List Kind → String → Prop
  | none : IsHeader [] "main"
  | some : IsHeader [.keyword .program, .ident name, .sign .semicolon] name

/-- The main block is the last routine of the only module. -/
inductive IsProgram : List Kind → Program → Prop
  | intro : IsHeader hs name → IsDeclarations ds cs rs → IsBlock bs body →
      IsProgram (hs ++ (ds ++ (bs ++ [.sign .dot])))
        { constants := cs
          modules := [⟨name, rs ++ [{ name := "main", body := body }]⟩] }

end Cartridge.Pascal.Grammar
