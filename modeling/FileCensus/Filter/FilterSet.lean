import FileCensus.Filter.Matcher

/-!
The filters of one walk. A path is excluded when an exclude matcher accepts it, and included when there are no include
matchers or one of them accepts it. Entries of the root have depth 0.
-/

namespace FileCensus

structure FilterSet where
  exclude : List Matcher
  include_ : List Matcher
  maxDepth : Option Int
  followLinks : Bool

namespace FilterSet

def all : FilterSet :=
    ⟨[], [], none, false⟩

def isExcluded (f : FilterSet) (query : AttributeQuery) (path : Path) (relative : String) : Except Failure Bool :=
    Matcher.anyAccepts query path relative f.exclude

def isIncluded (f : FilterSet) (query : AttributeQuery) (path : Path) (relative : String) : Except Failure Bool :=
    if f.include_.isEmpty then .ok true else Matcher.anyAccepts query path relative f.include_

def allowsDepth (f : FilterSet) (depth : Int) : Bool :=
    match f.maxDepth with
    | some limit => depth ≤ limit
    | none => true

end FilterSet

end FileCensus
