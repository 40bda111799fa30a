import TraversalPlan.Command.Arguments
import TraversalPlan.Command.Files
import TraversalPlan.Lowering.Build
import TraversalPlan.Plan.Binary
import TraversalPlan.Plan.Document
import TraversalPlan.Plan.Listing
import TraversalPlan.Result.Decode
import TraversalPlan.Result.Document
import TraversalPlan.Text.Table
import TraversalPlan.Traversal.Document

/-!
# Running commands

* `Outcome`: the exit status and what is printed.
* `Command.run`: lowers a traversal or decodes a result, reading and writing files as asked.
-/

namespace TraversalPlan

/-- The exit status of a command and what it prints. -/
structure Outcome where
  status : Nat
  output : String
  errors : String
deriving DecidableEq, Repr, Inhabited

namespace Command

/-- Why a command fails. -/
inductive Failure where
  | read (path : String) (why : FileFailure)
  | parse (path : String)
  | write (path : String) (why : FileFailure)
  | lower (path : String) (why : Report)
  | decode (path : String) (why : Report)
deriving DecidableEq, Repr

def Failure.message : Failure → String
  | read path why => "failed to read " ++ path ++ ": " ++ why.message
  | parse path => "failed to parse " ++ path
  | write path why => "failed to write " ++ path ++ ": " ++ why.message
  | lower path why => "failed to lower " ++ path ++ ": " ++ why.text
  | decode path why => "failed to decode " ++ path ++ ": " ++ why.text

/-- The outcome of a command that prints a text or fails. -/
def outcome (printing : Printing) : Except Failure String → Outcome
  | .ok text => ⟨0, if printing.quiet then "" else text, ""⟩
  | .error failure => ⟨1, "", "Error: " ++ failure.message ++ "\n"⟩

/-- A command line that is not understood. -/
def usageError : Outcome := ⟨2, "", ""⟩

def versionText : String := "graphir 0.1.0\n"

variable {m : Type → Type} [Monad m]

/-- Reads a file that holds a document. -/
def readDocument {α : Type} (files : Files m) (read? : Nat → Document → Option α) (path : String) :
    ExceptT Failure m α := do
  match ← files.read path with
  | .error why => throw (.read path why)
  | .ok text =>
    match (Document.parse text).bind (read? Document.bracketLimit) with
    | some a => return a
    | none => throw (.parse path)

/-- The configuration of a request: that of its file with the options given beside it. -/
def config (files : Files m) (r : LowerRequest) : ExceptT Failure m Config := do
  let base ← match r.config with
    | some path => readDocument files Config.ofDocument? path
    | none => pure Config.standard
  return ⟨r.policy.getD base.policy, r.seed.getD base.defaultSampleSeed,
    r.parallel || base.parallel⟩

/-- A plan as it is printed. -/
def planText (format : OutputFormat) (p : Plan) : String :=
  match format with
  | .json => p.toJson.pretty
  | .table => Table.render ["#", "Operator", "Detail"] (p.rows.map Row.cells)

/-- Values as they are printed. -/
def valuesText (format : OutputFormat) (vs : List Json) : String :=
  match format with
  | .json => (Json.arr vs).pretty
  | .table => Table.render ["#", "Value"] (vs.zipIdx.map fun (v, i) => [i.repr, v.compact])

/-- Writes the binary plan if asked to, and says so. -/
def writePlan (files : Files m) (output : Option String) (p : Plan) : ExceptT Failure m String := do
  match output with
  | none => return ""
  | some path =>
    let bytes := p.encode
    match ← files.write path bytes with
    | .error why => throw (.write path why)
    | .ok () => return "Wrote " ++ bytes.length.repr ++ " bytes to " ++ path ++ "\n"

/-- For each query, the order in which steps end that are lowered at the same time. -/
abbrev Ending := Config → Traversal → List Nat

/-- Steps end in the order in which they stand. -/
def Ending.inOrder : Ending := fun _ t => List.range t.steps.length

def lower (ending : Ending) (files : Files m) (r : LowerRequest) (format : OutputFormat) :
    ExceptT Failure m String := do
  let config ← config files r
  let t ← readDocument files Traversal.ofDocument? r.path
  match t.lowerEnding (ending config t) config with
  | .error e => throw (.lower r.path e.report)
  | .ok plan =>
    let wrote ← writePlan files r.output plan
    return wrote ++ planText format plan ++ "\n✓ Lowered " ++ plan.size.repr ++ " operators\n"

def decode (files : Files m) (r : DecodeRequest) (format : OutputFormat) :
    ExceptT Failure m String := do
  let result ← readDocument files QueryResult.ofDocument? r.path
  let tags ← match r.tags with
    | some path => readDocument files TagTable.ofDocument? path
    | none => pure .empty
  match (result.decode tags).result with
  | .error e => throw (.decode r.path e.report)
  | .ok values => return valuesText format values ++ "\n"

/-- Runs what a command line asks for. -/
def runEnding (ending : Ending) (files : Files m) (args : List String) : m Outcome :=
  match Request.ofArguments? args with
  | none => pure usageError
  | some .version => pure ⟨0, versionText, ""⟩
  | some (.lower r printing) =>
    return outcome printing (← (lower ending files r printing.format).run)
  | some (.decode r printing) => return outcome printing (← (decode files r printing.format).run)

/-- Runs what a command line asks for, with steps that end in the order in which they stand. -/
def run (files : Files m) (args : List String) : m Outcome := runEnding .inOrder files args

end Command
end TraversalPlan
