/-
Topic filters: a filter string is checked, cut at its slashes and turned into an anchored regular
expression, level by level. That the expression compiles within the size limit of the regex crate is
assumed.
-/
import TokioMqtt.Errors
import TokioMqtt.Lib.Regex

namespace TokioMqtt.Proto

open Regex (Expr isMatch)
open Regex.Expr

/-- `(?:[^/]#|#(?:.+))`. -/
def invalidMultilevel : Expr :=
  alt (seq (chars (.notOne '/')) (lit '#')) (seq (lit '#') (plus (chars .any)))

/-- `(?:[^/]\x2B|\x2B[^/])`. -/
def invalidSinglelevel : Expr :=
  alt (seq (chars (.notOne '/')) (lit '+')) (seq (lit '+') (chars (.notOne '/')))

structure TopicFilter where
  matcher : Expr
  original : String
  deriving DecidableEq

namespace TopicFilter

/-- The expression of one level with what joins it to the text before it, `before`: a slash, or `^` for the
first level. The `?` a `#` begins with applies to it. -/
def level (before : Expr) (tok : List Char) : Expr :=
  if '+' ∈ tok then seq before (plus (chars (.notOne '/')))
  else if '#' ∈ tok then seq (opt before) (star (chars .any))
  else seq before (lits tok)

/-- The levels after the first, then `$`. -/
def levels : List (List Char) → Expr
  | [] => stop
  | tok :: toks => seq (level (lit '/') tok) (levels toks)

/-- `format!("^{}$", collect.join("/"))`, compiled. -/
def matchExpr : List (List Char) → Expr
  | [] => seq start stop
  | tok :: toks => seq (level start tok) (levels toks)

def fromString (s : String) : Except ErrorKind TopicFilter :=
  if isMatch invalidSinglelevel s.toList || isMatch invalidMultilevel s.toList then .error .invalidTopicFilter
  else if s.isEmpty then .error .invalidTopicFilter
  else .ok ⟨matchExpr (s.toList.splitOn '/'), s⟩

def matchTopic (f : TopicFilter) (topic : String) : Bool := isMatch f.matcher topic.toList

end TopicFilter

end TokioMqtt.Proto
