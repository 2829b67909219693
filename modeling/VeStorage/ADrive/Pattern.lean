import VeStorage.Lib.Text

namespace VeStorage.ADrive
open Lib

def findPart (part : Text) : Text → Option Nat
  | [] => if part = [] then some 0 else none
  | c :: cs => if part <+: c :: cs then some 0 else (findPart part cs).map (· + 1)

def matchParts (anchored : Bool) : List Text → Text → Bool
  | [], _ => true
  | [] :: parts, remainder => matchParts false parts remainder
  | part :: parts, remainder =>
      match findPart part remainder with
      | none => false
      | some position =>
          if anchored && position != 0 then false
          else matchParts false parts (remainder.drop (position + part.length))

def simplePatternMatch (pattern value : Text) : Bool :=
  let parts := pattern.splitOn '*'
  if pattern = ['*'] then true
  else if parts.length = 1 then decide (pattern <:+: value)
  else
    matchParts (!decide (['*'] <+: pattern)) parts value &&
      (decide (['*'] <:+ pattern) || decide (parts.getLastD [] <:+ value))

def pathMatchesFilters (path : Text) (includePattern excludePattern : Option Text) : Bool :=
  if excludePattern.any (simplePatternMatch · path) then false
  else includePattern.all (simplePatternMatch · path)

example : simplePatternMatch "*.txt".toList "docs/a.txt".toList = true := by decide

end VeStorage.ADrive
