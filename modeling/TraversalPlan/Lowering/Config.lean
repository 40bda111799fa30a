import TraversalPlan.Json.Basic
import TraversalPlan.Json.Reading

/-!
# Configuration of lowering

* `ModulatorPolicy`: how the modulators of a `where` are handed to its operands.
* `Config`: the options of lowering, with a document form in which every option has a default.
-/

namespace TraversalPlan

/-- How the modulators of a `where` are handed to its operands, in order. -/
inductive ModulatorPolicy where
  /-- A single modulator serves every operand, several serve one each. -/
  | broadcast
  /-- Every operand has a modulator of its own. -/
  | strict
  /-- The modulators are handed out over and over. -/
  | cycle
deriving DecidableEq, Repr, Inhabited

namespace ModulatorPolicy

def all : List ModulatorPolicy := [broadcast, strict, cycle]

def name : ModulatorPolicy → String
  | broadcast => "broadcast"
  | strict => "strict"
  | cycle => "cycle"

def ofDocument? (budget : Nat) (d : Document) : Option ModulatorPolicy := d.choice? all name budget

end ModulatorPolicy

/-- The options of lowering. -/
structure Config where
  policy : ModulatorPolicy
  /-- The seed of a sample that has none. -/
  defaultSampleSeed : UInt64
  /-- The steps of the whole query are lowered at the same time. -/
  parallel : Bool
deriving DecidableEq, Repr

namespace Config

def standard : Config := ⟨.broadcast, 0, false⟩

instance : Inhabited Config := ⟨standard⟩

def toJson (c : Config) : Json :=
  .obj [("modulator_policy", .str c.policy.name),
    ("default_sample_seed", .ofNat c.defaultSampleSeed.toNat), ("parallel", .bool c.parallel)]

/-- Reads options with a budget of open brackets; a missing one takes its standard value. -/
def ofDocument? : Nat → Document → Option Config
  | 0, _ => none
  | budget + 1, d => do
    match ← d.record? ["modulator_policy", "default_sample_seed", "parallel"] with
    | [policy, seed, parallel] =>
      let policy ← Document.orDefault? standard.policy (ModulatorPolicy.ofDocument? budget) policy
      let seed ← Document.orDefault? standard.defaultSampleSeed Document.toUInt64? seed
      let parallel ← Document.orDefault? standard.parallel Document.toBool? parallel
      return ⟨policy, seed, parallel⟩
    | _ => none

end Config
end TraversalPlan
