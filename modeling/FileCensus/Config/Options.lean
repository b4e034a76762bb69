import FileCensus.Config.Coercion

/-!
The options of a scan. Each option has two keys, of which the first wins when both are given; unknown keys are ignored. The
options are checked in a fixed order and the first malformed one is reported under the key that was used. An option that was
not given is kept apart from one that was given its default.
-/

namespace FileCensus

inductive OptionName where
  | includeHidden
  | includeSystem
  | includePattern
  | excludePattern
  | followLinks
  | maxDepth
  deriving DecidableEq, Repr

namespace OptionName

/-- All options, in the order in which they are checked. -/
def all : List OptionName :=
    [.includeHidden, .includeSystem, .includePattern, .excludePattern, .followLinks, .maxDepth]

def key : OptionName → String
  | .includeHidden => "includeHiddenFiles"
  | .includeSystem => "includeOSFiles"
  | .includePattern => "includePattern"
  | .excludePattern => "excludePattern"
  | .followLinks => "followSymlinks"
  | .maxDepth => "maxDepth"

def otherKey : OptionName → String
  | .includeHidden => "include_hidden_files"
  | .includeSystem => "include_os_files"
  | .includePattern => "include_pattern"
  | .excludePattern => "exclude_pattern"
  | .followLinks => "follow_symlinks"
  | .maxDepth => "max_depth"

end OptionName

/-- Options that were given; `none` stands for one that was not. -/
structure Options where
  includeHidden : Option Bool
  includeSystem : Option Bool
  includePattern : Option (List String)
  excludePattern : Option (List String)
  followLinks : Option Bool
  maxDepth : Option (Option Nat)
  deriving DecidableEq, Repr

namespace Options

def none : Options :=
    ⟨.none, .none, .none, .none, .none, .none⟩

def isGiven (o : Options) : OptionName → Bool
  | .includeHidden => o.includeHidden.isSome
  | .includeSystem => o.includeSystem.isSome
  | .includePattern => o.includePattern.isSome
  | .excludePattern => o.excludePattern.isSome
  | .followLinks => o.followLinks.isSome
  | .maxDepth => o.maxDepth.isSome

def given (o : Options) : List OptionName :=
    OptionName.all.filter o.isGiven

abbrev Given := List (String × Datum)

/-- The value given for an option, with the key that was used for it. -/
def lookup (given : Given) (n : OptionName) : Option (String × Datum) :=
    match given.find? (·.1 == n.key) with
    | some kv => some kv
    | .none => given.find? (·.1 == n.otherKey)

def readWith {α : Type} (given : Given) (n : OptionName) (read : Datum → Except (Option Nat × OptionFault) α) :
    Except ConfigError (Option α) :=
    match lookup given n with
    | .none => .ok .none
    | some (key, d) =>
        match read d with
        | .ok v => .ok (some v)
        | .error (some index, fault) => .error (.option (key ++ "." ++ toString index) fault)
        | .error (.none, fault) => .error (.option key fault)

def whole {α : Type} (read : Datum → Except OptionFault α) (d : Datum) : Except (Option Nat × OptionFault) α :=
    match read d with
    | .ok v => .ok v
    | .error fault => .error (.none, fault)

def ofGiven (given : Given) : Except ConfigError Options := do
    let includeHidden ← readWith given .includeHidden (whole Datum.toSwitch)
    let includeSystem ← readWith given .includeSystem (whole Datum.toSwitch)
    let includePattern ← readWith given .includePattern Datum.toPatterns
    let excludePattern ← readWith given .excludePattern Datum.toPatterns
    let followLinks ← readWith given .followLinks (whole Datum.toSwitch)
    let maxDepth ← readWith given .maxDepth (whole Datum.toDepth)
    .ok ⟨includeHidden, includeSystem, includePattern, excludePattern, followLinks, maxDepth⟩

end Options

end FileCensus
