/-
RuleCodec/Expr/Normal.lean

The normal text of an expression: what its tree is written as.  Parentheses that hold no `AND` or
`OR` disappear, the pipe form of a mapped tracker becomes the call form, and literals take their
canonical spelling.
-/
import RuleCodec.Expr.Parser

namespace RuleCodec.Expr

/-- Checks that parentheses pair up, given the positions of those still open.  A parenthesis that
closes nothing is reported at once, one that is never closed at the end, the innermost first. -/
def checkParentheses : (opened : List Nat) → List Located → Except Error Unit
  | [], [] => .ok ()
  | position :: _, [] => .error (.malformed .unmatchedOpen position)
  | opened, t :: ts =>
    match t.token with
    | .leftParen => checkParentheses (t.position :: opened) ts
    | .rightParen =>
      match opened with
      | [] => .error (.malformed .unmatchedClose t.position)
      | _ :: outer => checkParentheses outer ts
    | _ => checkParentheses opened ts

/-- The normal text of a rule's expression. -/
def normalize (source : String) : Except Error String := do
  let tokens ← Token.scan source
  checkParentheses [] tokens
  let e ← ofTokens tokens
  return e.render

end RuleCodec.Expr
