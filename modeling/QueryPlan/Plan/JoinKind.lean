namespace QueryPlan

inductive JoinKind
  | inner
  | cross
  | leftOuter
  | rightOuter
  | fullOuter
  | leftSemi
  | rightSemi
  | leftAnti
  | rightAnti
  /-- Left rows without a match, where a comparison with null counts as a match. -/
  | nullAwareLeftAnti
  deriving DecidableEq

namespace JoinKind

def all : List JoinKind :=
  [.inner, .cross, .leftOuter, .rightOuter, .fullOuter, .leftSemi, .rightSemi, .leftAnti,
    .rightAnti, .nullAwareLeftAnti]

def rank : JoinKind → Nat
  | inner => 0 | cross => 1 | leftOuter => 2 | rightOuter => 3 | fullOuter => 4
  | leftSemi => 5 | rightSemi => 6 | leftAnti => 7 | rightAnti => 8 | nullAwareLeftAnti => 9

instance : Ord JoinKind := ⟨compareOn rank⟩

def render : JoinKind → String
  | inner => "inner" | cross => "cross" | leftOuter => "left outer"
  | rightOuter => "right outer" | fullOuter => "full outer" | leftSemi => "left semi"
  | rightSemi => "right semi" | leftAnti => "left anti" | rightAnti => "right anti"
  | nullAwareLeftAnti => "null aware left anti"

def tag : JoinKind → String
  | inner => "Inner" | cross => "Cross" | leftOuter => "LeftOuter"
  | rightOuter => "RightOuter" | fullOuter => "FullOuter" | leftSemi => "LeftSemi"
  | rightSemi => "RightSemi" | leftAnti => "LeftAnti" | rightAnti => "RightAnti"
  | nullAwareLeftAnti => "NullAwareLeftAnti"

def outputsLeft : JoinKind → Bool
  | rightSemi | rightAnti => false
  | _ => true

def outputsRight : JoinKind → Bool
  | leftSemi | leftAnti | nullAwareLeftAnti => false
  | _ => true

end JoinKind
end QueryPlan
