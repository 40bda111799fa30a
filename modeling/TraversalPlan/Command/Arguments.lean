import TraversalPlan.Lowering.Config
import TraversalPlan.Numeral

/-!
# Command-line arguments

* `OptionSpec`: an option with its long name, its letter and whether it has a value.
* `Arguments.leading?`, `Arguments.all?`: taking options apart from other arguments.
* `Request.ofArguments?`: what a command line asks for, or none if it is not understood.
-/

namespace TraversalPlan

/-- An option of a command line. -/
structure OptionSpec where
  name : String
  letter : Option Char
  hasValue : Bool

/-- An option as given, with its value if it has one. -/
structure Given where
  name : String
  value : Option String
deriving DecidableEq, Repr

namespace Arguments

/-- An argument that is an option, or the mark after which there are none. A lone dash is not. -/
def isOption (arg : String) : Bool :=
  match arg.toList with
  | '-' :: _ :: _ => true
  | _ => false

/-- Gives an option its value from the next argument, which must not be an option itself. -/
def withNext? (name : String) : List String → Option (List Given × List String)
  | [] => none
  | value :: rest => if isOption value then none else some ([⟨name, some value⟩], rest)

/-- Reads an option by its long name, with a value after an equals sign or as the next argument. -/
def long? (specs : List OptionSpec) (cs : List Char) (rest : List String) :
    Option (List Given × List String) := do
  let name := String.ofList (cs.takeWhile (· ≠ '='))
  let spec ← specs.find? fun s => s.name = name
  match cs.dropWhile (· ≠ '='), spec.hasValue with
  | [], false => some ([⟨name, none⟩], rest)
  | [], true => withNext? name rest
  | _ :: _, false => none
  | _ :: value, true => some ([⟨name, some (String.ofList value)⟩], rest)

/-- The option that ends the reading of a command line at once. -/
def versionName : String := "version"

/-- Reads options by their letters, several after one dash. What follows the letter of an option with
a value is the value. -/
def short? (specs : List OptionSpec) (rest : List String) :
    List Char → Option (List Given × List String)
  | [] => some ([], rest)
  | c :: cs => do
    let spec ← specs.find? fun s => s.letter = some c
    if spec.hasValue then
      match cs with
      | [] => withNext? spec.name rest
      | '=' :: value => some ([⟨spec.name, some (String.ofList value)⟩], rest)
      | value => some ([⟨spec.name, some (String.ofList value)⟩], rest)
    else if spec.name = versionName then some ([⟨spec.name, none⟩], rest)
    else
      let (given, rest) ← short? specs rest cs
      return (⟨spec.name, none⟩ :: given, rest)

/-- Reads the options of an argument that is one. -/
def option? (specs : List OptionSpec) (arg : String) (rest : List String) :
    Option (List Given × List String) :=
  match arg.toList with
  | '-' :: '-' :: cs => if cs.isEmpty then none else long? specs cs rest
  | '-' :: cs => short? specs rest cs
  | _ => none

/-- Reads options up to the first other argument, or up to the version option. -/
def leading? (specs : List OptionSpec) : Nat → List String → Option (List Given × List String)
  | _, [] => some ([], [])
  | 0, _ => none
  | fuel + 1, arg :: rest =>
    if isOption arg then do
      let (given, rest) ← option? specs arg rest
      if given.any fun g => g.name = versionName then return (given, [])
      let (more, rest) ← leading? specs fuel rest
      return (given ++ more, rest)
    else some ([], arg :: rest)

/-- Takes options apart from other arguments. After a double dash there are no options. -/
def all? (specs : List OptionSpec) : Nat → List String → Option (List Given × List String)
  | _, [] => some ([], [])
  | 0, _ => none
  | fuel + 1, arg :: rest =>
    if arg = "--" then some ([], rest)
    else if isOption arg then do
      let (given, rest) ← option? specs arg rest
      let (more, others) ← all? specs fuel rest
      return (given ++ more, others)
    else do
      let (given, others) ← all? specs fuel rest
      return (given, arg :: others)

/-- No option is given twice. -/
def distinct (given : List Given) : Bool := (given.map Given.name).Nodup

def has (given : List Given) (name : String) : Bool := given.any fun g => g.name = name

/-- The value of an option, if it is given; none at all if the value is not understood. -/
def value? {α : Type} (given : List Given) (name : String) (read : String → Option α) :
    Option (Option α) :=
  match given.find? fun g => g.name = name with
  | some ⟨_, some value⟩ => (read value).map some
  | _ => some none

end Arguments

/-! ## Requests -/

/-- How results are printed. -/
inductive OutputFormat where
  | table
  | json
deriving DecidableEq, Repr

namespace OutputFormat

def ofName? (name : String) : Option OutputFormat :=
  if name = "table" then some table else if name = "json" then some json else none

end OutputFormat

/-- How results are printed, and whether at all. -/
structure Printing where
  format : OutputFormat
  quiet : Bool
deriving DecidableEq, Repr

/-- What to lower and how. -/
structure LowerRequest where
  path : String
  config : Option String
  policy : Option ModulatorPolicy
  seed : Option UInt64
  parallel : Bool
  /-- Where the binary plan goes. -/
  output : Option String
deriving DecidableEq, Repr

/-- What to decode. -/
structure DecodeRequest where
  path : String
  tags : Option String
deriving DecidableEq, Repr

/-- What a command line asks for. -/
inductive Request where
  | version
  | lower (r : LowerRequest) (printing : Printing)
  | decode (r : DecodeRequest) (printing : Printing)
deriving DecidableEq, Repr

namespace Request

/-- The options that stand before and after the command. -/
def sharedOptions : List OptionSpec :=
  [⟨"format", none, true⟩, ⟨"quiet", some 'q', false⟩, ⟨"verbose", some 'v', false⟩]

def programOptions : List OptionSpec := ⟨Arguments.versionName, some 'V', false⟩ :: sharedOptions

def lowerOptions : List OptionSpec :=
  [⟨"config", none, true⟩, ⟨"policy", none, true⟩, ⟨"seed", none, true⟩,
    ⟨"parallel", none, false⟩, ⟨"output", some 'o', true⟩] ++ sharedOptions

def decodeOptions : List OptionSpec := ⟨"tags", none, true⟩ :: sharedOptions

/-- The name of a file is not empty. -/
def file? (s : String) : Option String := if s = "" then none else some s

def seed? (s : String) : Option UInt64 :=
  (Numeral.natOf? s).bind fun n => if n < UInt64.size then some (UInt64.ofNat n) else none

def policy? (s : String) : Option ModulatorPolicy := ModulatorPolicy.all.find? fun p => p.name = s

/-- How to print by the options before and after the command; those after it come first. -/
def printing? (before after : List Given) : Option Printing := do
  let outer ← Arguments.value? before "format" OutputFormat.ofName?
  let inner ← Arguments.value? after "format" OutputFormat.ofName?
  return ⟨(inner.or outer).getD .table,
    Arguments.has before "quiet" || Arguments.has after "quiet"⟩

def lowerOf? (before : List Given) (args : List String) : Option Request := do
  let (given, others) ← Arguments.all? lowerOptions args.length args
  guard (Arguments.distinct given)
  let [path] := others | none
  let path ← file? path
  let config ← Arguments.value? given "config" file?
  let policy ← Arguments.value? given "policy" policy?
  let seed ← Arguments.value? given "seed" seed?
  let output ← Arguments.value? given "output" file?
  let printing ← printing? before given
  return lower ⟨path, config, policy, seed, Arguments.has given "parallel", output⟩ printing

def decodeOf? (before : List Given) (args : List String) : Option Request := do
  let (given, others) ← Arguments.all? decodeOptions args.length args
  guard (Arguments.distinct given)
  let [path] := others | none
  let path ← file? path
  let tags ← Arguments.value? given "tags" file?
  let printing ← printing? before given
  return decode ⟨path, tags⟩ printing

/-- What a command line asks for, or none if it is not understood. -/
def ofArguments? (args : List String) : Option Request := do
  let (before, rest) ← Arguments.leading? programOptions args.length args
  guard (Arguments.distinct before)
  let _ ← Arguments.value? before "format" OutputFormat.ofName?
  if Arguments.has before Arguments.versionName then return version
  match rest with
  | "lower" :: args => lowerOf? before args
  | "decode" :: args => decodeOf? before args
  | _ => none

end Request
end TraversalPlan
