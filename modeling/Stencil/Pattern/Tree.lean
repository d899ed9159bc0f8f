import Stencil.Pattern.CharSet

/-!
# Pattern — Patterns

Regular expressions as trees.  Groups are numbered from one, in the order of their opening
parentheses.  A repetition takes as many rounds as it can if it is greedy, and otherwise as few.
-/

namespace Stencil

/-- What an assertion requires of the characters on both sides of a place. -/
inductive Assertion where
  | textStart | textEnd
  | lineStart | lineEnd
  | wordBoundary | noWordBoundary
  | wordStart | wordEnd
  | wordStartHalf | wordEndHalf
  deriving DecidableEq, Repr

/-- Regular expressions. -/
inductive Pattern where
  | empty
  | char (s : CharSet)
  | assertion (a : Assertion)
  | group (index : Nat) (body : Pattern)
  | sequence (first second : Pattern)
  | choice (first second : Pattern)
  | repetition (body : Pattern) (least : Nat) (most : Option Nat) (greedy : Bool)
  deriving DecidableEq, Repr

namespace Pattern

/-- How many groups a pattern has. -/
def groupCount : Pattern → Nat
  | empty => 0
  | char _ => 0
  | assertion _ => 0
  | group _ body => body.groupCount + 1
  | sequence first second => first.groupCount + second.groupCount
  | choice first second => first.groupCount + second.groupCount
  | repetition body _ _ _ => body.groupCount

/-- Whether a pattern can match without a character. -/
def nullable : Pattern → Bool
  | empty => true
  | char _ => false
  | assertion _ => true
  | group _ body => body.nullable
  | sequence first second => first.nullable && second.nullable
  | choice first second => first.nullable || second.nullable
  | repetition body least _ _ => least == 0 || body.nullable

end Pattern

end Stencil
