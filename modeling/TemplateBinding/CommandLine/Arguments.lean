import TemplateBinding.Text.Basic

/-!
The arguments of the command line. Options may stand anywhere behind the subcommand they
belong to; the two global ones also before it. An option may be written as `--name=x`,
`--name x`, `-nx`, `-n=x` or `-n x`, and flags of one letter may share a hyphen. Behind
`--` everything is a value.
-/
namespace TemplateBinding.CommandLine

inductive Flag
  | config
  | verbose
  | tag
  | filter
  | help
  | version
deriving DecidableEq

namespace Flag

def long : Flag → Text
  | .config => "config"
  | .verbose => "verbose"
  | .tag => "tag"
  | .filter => "filter"
  | .help => "help"
  | .version => "version"

def short : Flag → Char
  | .config => 'c'
  | .verbose => 'v'
  | .tag => 't'
  | .filter => 'f'
  | .help => 'h'
  | .version => 'V'

def takesValue : Flag → Bool
  | .config | .tag | .filter => true
  | .verbose | .help | .version => false

def mayRepeat : Flag → Bool
  | .filter => true
  | _ => false

end Flag

/-- A place for values. The last one of a scope may take many. Where hyphens are allowed, a
word that is no known option is a value even if it begins with a hyphen. -/
structure Slot where
  many : Bool
  hyphens : Bool

inductive Scope
  | root
  | attr
  | interpret
  | expr
deriving DecidableEq

namespace Scope

def flags : Scope → List Flag
  | .root => [.config, .verbose, .help, .version]
  | .attr | .interpret => [.tag, .filter, .config, .verbose, .help]
  | .expr => [.config, .verbose, .help]

def slots : Scope → List Slot
  | .root => []
  | .attr => [⟨true, false⟩]
  | .interpret => [⟨false, false⟩, ⟨false, false⟩, ⟨false, true⟩]
  | .expr => [⟨false, true⟩]

def slot? (scope : Scope) (count : Nat) : Option Slot :=
  match scope.slots[count]? with
  | some slot => some slot
  | none => scope.slots.getLast?.filter Slot.many

def ofName? (name : Text) : Option Scope :=
  if name = "attr" then some .attr
  else if name = "interpret" then some .interpret
  else if name = "expr" then some .expr
  else none

end Scope

inductive Halt
  | help
  | version
  | usage
deriving DecidableEq

/-- What was read of one scope. An option is pending until something else follows its
value, or until the end; only then it counts as given. -/
structure Reading where
  given : List (Flag × Text)
  pending : Option (Flag × Option Text)
  values : List Text
  verbatim : Bool

namespace Reading

def start : Reading := ⟨[], none, [], false⟩

def give (r : Reading) (flag : Flag) (value : Text) : Except Halt Reading :=
  if !flag.mayRepeat && r.given.any (fun g => g.1 = flag) then .error .usage
  else .ok { r with given := r.given ++ [(flag, value)] }

def settle (r : Reading) : Except Halt Reading :=
  match r.pending with
  | none => .ok r
  | some (_, none) => .error .usage
  | some (flag, some value) => give { r with pending := none } flag value

def isAwaiting (r : Reading) : Bool :=
  match r.pending with
  | some (_, none) => true
  | _ => false

def switch (r : Reading) (flag : Flag) : Except Halt Reading := do
  let r ← r.settle
  match flag with
  | .help => .error .help
  | .version => .error .version
  | flag => r.give flag []

def await (r : Reading) (flag : Flag) : Except Halt Reading := do
  let r ← r.settle
  .ok { r with pending := some (flag, none) }

def attach (r : Reading) (flag : Flag) (value : Text) : Except Halt Reading := do
  let r ← r.settle
  r.give flag value

def addValue (scope : Scope) (r : Reading) (word : Text) : Except Halt Reading :=
  match scope.slot? r.values.length with
  | none => .error .usage
  | some _ => do
    let r ← r.settle
    .ok { r with values := r.values ++ [word] }

def plainWord (scope : Scope) (r : Reading) (word : Text) : Except Halt Reading :=
  match r.pending with
  | some (flag, none) => .ok { r with pending := some (flag, some word) }
  | _ => r.addValue scope word

def allowsHyphens (scope : Scope) (r : Reading) : Bool :=
  (scope.slot? r.values.length).any Slot.hyphens

def longWord (scope : Scope) (r : Reading) (word : Text) : Except Halt Reading :=
  let body := word.drop 2
  let (name, value) := match Text.cut? "=" body with
    | some (name, value) => (name, some value)
    | none => (body, none)
  match scope.flags.find? fun flag => flag.long = name with
  | some flag =>
    match flag.takesValue, value with
    | true, some value => r.attach flag value
    | true, none => r.await flag
    | false, some _ => .error .usage
    | false, none => r.switch flag
  | none => if r.allowsHyphens scope then r.plainWord scope word else .error .usage

/-- The letters behind one hyphen. The first that takes a value takes all that follows. -/
def letters (scope : Scope) (r : Reading) : Text → Except Halt Reading
  | [] => .ok r
  | c :: cs =>
    match scope.flags.find? fun flag => flag.short = c with
    | none => .error .usage
    | some flag =>
      if flag.takesValue then
        match cs with
        | [] => r.await flag
        | '=' :: value => r.attach flag value
        | value => r.attach flag value
      else do
        let r ← r.switch flag
        letters scope r cs

def shortWord (scope : Scope) (r : Reading) (word : Text) : Except Halt Reading :=
  let known (c : Char) : Bool := scope.flags.any fun flag => flag.short = c
  if r.allowsHyphens scope && !(word.drop 1).all known then r.plainWord scope word
  else r.letters scope (word.drop 1)

def word (scope : Scope) (r : Reading) (word : Text) : Except Halt Reading :=
  if r.verbatim then r.addValue scope word
  else
    match word with
    | ['-', '-'] => .ok { r with verbatim := true }
    | '-' :: '-' :: _ => r.longWord scope word
    | '-' :: _ :: _ => r.shortWord scope word
    | _ => r.plainWord scope word

def words (scope : Scope) (r : Reading) (ws : List Text) : Except Halt Reading :=
  ws.foldlM (word scope) r

def value? (r : Reading) (flag : Flag) : Option Text :=
  (r.given.find? fun g => g.1 = flag).map (·.2)

def allValues (r : Reading) (flag : Flag) : List Text :=
  (r.given.filter fun g => g.1 = flag).map (·.2)

end Reading

inductive Request
  | attr (tag : Text) (filters assignments : List Text)
  | interpret (tag : Text) (filters : List Text) (keyword name value : Text)
  | expr (source : Text)

structure Invocation where
  configPath : Option Text
  verbose : Bool
  request : Request

def defaultTag : Text := "div"

def Reading.request? (r : Reading) (scope : Scope) : Option Request :=
  let tag := (r.value? .tag).getD defaultTag
  match scope, r.values with
  | .attr, assignments@(_ :: _) => some (.attr tag (r.allValues .filter) assignments)
  | .interpret, [keyword, name, value] =>
    some (.interpret tag (r.allValues .filter) keyword name value)
  | .expr, [source] => some (.expr source)
  | _, _ => none

def helpTopics : List Text := ["attr", "interpret", "expr", "help"]

def helpHalt (words : List Text) : Halt :=
  match words with
  | [] => .help
  | [topic] => if topic ∈ helpTopics then .help else .usage
  | _ => .usage

/-- Reads the words of a subcommand. A global option given there counts before one that
was given in front of it. -/
def readSubcommand (outer : Reading) (scope : Scope) (words : List Text) :
    Except Halt Invocation := do
  let read ← Reading.start.words scope words
  let inner ← read.settle
  match inner.request? scope with
  | none => .error .usage
  | some request => do
    let outer ← outer.settle
    .ok {
      configPath := (inner.value? .config).or (outer.value? .config)
      verbose := (inner.value? .verbose).isSome || (outer.value? .verbose).isSome
      request := request }

def readWords (r : Reading) : List Text → Except Halt Invocation
  | [] => .error .usage
  | word :: rest =>
    if r.verbatim || r.isAwaiting then do
      let r ← r.word .root word
      readWords r rest
    else if word = "help" then .error (helpHalt rest)
    else
      match Scope.ofName? word with
      | some scope => readSubcommand r scope rest
      | none => do
        let r ← r.word .root word
        readWords r rest

def read (words : List Text) : Except Halt Invocation := readWords .start words

end TemplateBinding.CommandLine
