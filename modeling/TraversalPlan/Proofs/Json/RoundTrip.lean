import TraversalPlan.Proofs.Json.Results
import TraversalPlan.Proofs.Json.Traversals

/-!
# Texts of queries and results

What is written as JSON is read back from its text, at any depth of nesting that a text may have
(**`toJson_roundTrips`**). The only condition is on floating-point numbers: they are finite, and each
is read back from its own text.

* `RoundTrips`: how a type is written and read.
-/

namespace TraversalPlan

/-- Everything is read back from its text whose floating-point numbers survive and whose text opens
no more brackets at once than a text may open. -/
def RoundTrips {α : Type} (write : α → Json) (read : Nat → Document → Option α)
    (floats : α → List Binary64) : Prop :=
  ∀ a, (∀ x ∈ floats a, x.Survives) → (write a).depth ≤ Document.bracketLimit →
    (Document.parse (write a).compact).bind (read Document.bracketLimit) = some a

theorem RoundTrips.of_readsAs {α : Type} {write : α → Json} {read : Nat → Document → Option α}
    {floats : α → List Binary64}
    (h : ∀ a, (∀ x ∈ floats a, x.Survives) → (write a).ReadsAs read a) :
    RoundTrips write read floats :=
  fun a hfloats hdepth => (h a hfloats).parse hdepth

/-- **Queries, options and results are read back from their texts.** -/
theorem toJson_roundTrips :
    RoundTrips Traversal.toJson Traversal.ofDocument? Traversal.floats ∧
      RoundTrips Step.toJson Step.ofDocument? Step.floats ∧
      RoundTrips StepKind.toJson StepKind.ofDocument? StepKind.floats ∧
      RoundTrips Predicate.toJson Predicate.ofDocument? Predicate.floats ∧
      RoundTrips Operand.toJson Operand.ofDocument? Operand.floats ∧
      RoundTrips Value.toJson Value.ofDocument? Value.floats ∧
      RoundTrips Config.toJson Config.ofDocument? (fun _ => []) ∧
      RoundTrips Position.toJson Position.ofDocument? (fun _ => []) ∧
      RoundTrips QueryResult.toJson QueryResult.ofDocument? QueryResult.floats ∧
      RoundTrips TagTable.toJson TagTable.ofDocument? (fun _ => []) :=
  ⟨.of_readsAs fun _ h => Traversal.readsAs h,
    .of_readsAs fun ⟨_, labels⟩ h => Step.readsAs (StepKind.readsAs h) labels,
    .of_readsAs fun _ h => StepKind.readsAs h,
    .of_readsAs fun _ h => Predicate.readsAs h,
    .of_readsAs fun _ h => Operand.readsAs h,
    .of_readsAs fun _ h => Value.readsAs h,
    .of_readsAs fun c _ => c.readsAs,
    .of_readsAs fun p _ => p.readsAs,
    .of_readsAs fun _ h => QueryResult.readsAs h,
    .of_readsAs fun t _ => TagTable.readsAs t⟩

/-- Draws half of the vertices `1` and `1.0`, weighted by a subquery that compares neighbours. -/
def sampleHalf : Traversal :=
  let one : Value := .float ⟨0x3FF0000000000000⟩
  let compare : ModulatedStep := .wherePredicate
    ⟨none, .not (.all [.compareTo .gt one, .compare .eq (.expr "@b.age")]), ["b", "b"], []⟩
  let weight : Traversal := ⟨[⟨.elementary (.expand .outgoing .vertex ["knows"]), []⟩,
    ⟨.modulated compare, []⟩, ⟨.elementary (.reduce .count), []⟩]⟩
  ⟨[⟨.elementary (.source .vertex [.int 1, one]), ["a", "b"]⟩,
    ⟨.modulated (.sample ⟨⟨0x3FE0000000000000⟩, none, some weight⟩), []⟩]⟩

theorem toJson_roundTrips_sampleHalf :
    (∀ x ∈ sampleHalf.floats, x.Survives) ∧ sampleHalf.toJson.depth ≤ Document.bracketLimit ∧
      (Document.parse sampleHalf.toJson.compact).bind
        (Traversal.ofDocument? Document.bracketLimit) = some sampleHalf := by
  have hfloats : sampleHalf.floats =
      [⟨0x3FF0000000000000⟩, ⟨0x3FE0000000000000⟩, ⟨0x3FF0000000000000⟩] := rfl
  have hone : Binary64.Survives ⟨0x3FF0000000000000⟩ := ⟨by decide, by decide +kernel⟩
  have hhalf : Binary64.Survives ⟨0x3FE0000000000000⟩ := ⟨by decide, by decide +kernel⟩
  have hsurvive : ∀ x ∈ sampleHalf.floats, x.Survives := by
    rw [hfloats]
    simp [hone, hhalf]
  have hdepth : sampleHalf.toJson.depth ≤ Document.bracketLimit := by decide
  exact ⟨hsurvive, hdepth, toJson_roundTrips.1 sampleHalf hsurvive hdepth⟩

end TraversalPlan
