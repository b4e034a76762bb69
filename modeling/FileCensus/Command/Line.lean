import FileCensus.Command.Usage

/-!
A command line is read into options and operands. An option that takes a value has it after an equals sign or as the next
word, whatever that word looks like. Two dashes end the options. Where options may not be mixed with operands, the first
operand ends them as well.
-/

namespace FileCensus.Command

/-- The options of a command, by whether they take a value. -/
structure OptionTable where
  flags : List String
  valued : List String

structure Mention where
  option : String
  value : Option String
  deriving DecidableEq, Repr

structure Line where
  mentions : List Mention
  operands : List String
  deriving DecidableEq, Repr

namespace Line

def mention (l : Line) (option : String) (value : Option String) : Line :=
    { l with mentions := ⟨option, value⟩ :: l.mentions }

def operand (l : Line) (word : String) : Line :=
    { l with operands := word :: l.operands }

/-- Whether a word is an option: a dash alone is not. -/
def isOption (word : String) : Bool :=
    match word.toList with
    | '-' :: _ :: _ => true
    | _ => false

/-- A word up to its first equals sign, and what follows that. -/
def splitValue (word : String) : String × Option String :=
    let cs := word.toList
    let name := cs.takeWhile (· != '=')
    match cs.drop name.length with
    | [] => (word, none)
    | _ :: value => (String.ofList name, some (String.ofList value))

/-- How an unknown option is named: one with a single dash by its first letter. -/
def unknownName (word name : String) : String :=
    if word.startsWith "--" then name else String.ofList (word.toList.take 2)

/-- Reads words after an option that still waits for its value, if there is one. -/
def readFrom (t : OptionTable) (mixed : Bool) : Option String → List String → Except UsageFault Line
  | some option, [] => .error (.valueMissing option)
  | some option, word :: rest => (readFrom t mixed none rest).map (·.mention option (some word))
  | none, [] => .ok ⟨[], []⟩
  | none, word :: rest =>
      if word = "--" then .ok ⟨[], rest⟩
      else if !isOption word then
        if mixed then (readFrom t mixed none rest).map (·.operand word) else .ok ⟨[], word :: rest⟩
      else
        let (name, attached) := splitValue word
        if t.valued.contains name then
          match attached with
          | some value => (readFrom t mixed none rest).map (·.mention name (some value))
          | none => readFrom t mixed (some name) rest
        else if !t.flags.contains name then .error (.unknownOption (unknownName word name))
        else if attached.isSome then .error (.valueUnwanted name)
        else (readFrom t mixed none rest).map (·.mention name none)

def read (t : OptionTable) (mixed : Bool) (words : List String) : Except UsageFault Line :=
    readFrom t mixed none words

def mentions? (l : Line) (option : String) : Bool :=
    l.mentions.any (·.option == option)

/-- The value that an option was given last. -/
def lastValue (l : Line) (option : String) : Option String :=
    ((l.mentions.filter (·.option == option)).getLast?).bind (·.value)

end Line

end FileCensus.Command
