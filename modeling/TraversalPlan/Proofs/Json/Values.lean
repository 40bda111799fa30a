import TraversalPlan.Predicate.Document
import TraversalPlan.Proofs.Json.Records

/-!
# Values and predicates read back

A value stands in a document without a mark of its kind. It is read back all the same: the token tells
the kinds apart, and among numbers the mark of a floating-point number does.

* `Value.floats`, `Predicate.floats`: the floating-point numbers in a value or predicate.
* **`Value.readsAs`**, **`Predicate.readsAs`**: what is written is read back if these numbers survive.
-/

namespace TraversalPlan

open Json

/-! ## Values -/

namespace Value

mutual

/-- The floating-point numbers in a value. -/
def floats : Value → List Binary64
  | float x => [x]
  | list items => floatsOf items
  | _ => []

def floatsOf : List Value → List Binary64
  | [] => []
  | v :: vs => floats v ++ floatsOf vs

end

theorem itemsToJson_eq (vs : List Value) : itemsToJson vs = vs.map toJson := by
  induction vs with
  | nil => rfl
  | cons v vs ih => rw [itemsToJson, ih, List.map_cons]

theorem listOfDocument?_eq : listOfDocument? = Document.itemsOf? ofDocument? := by
  funext budget
  cases budget <;> rfl

/-- An integer is read as an integer, not as a floating-point number. -/
theorem readsAs_int (i : Int64) : (Json.int i.toInt).ReadsAs ofDocument? (int i) := by
  refine ⟨trivial, fun _ => ?_⟩
  rcases Number.ofLiteral?_int64 i with hnumber | ⟨n, hnumber, hn, hvalue⟩
  · simp [document, ofDocument?, hnumber, ofNumber]
  · simp [document, ofDocument?, hnumber, ofNumber, hn, hvalue]

/-- A floating-point number is read as one, also where it has no fraction. -/
theorem readsAs_float {x : Binary64} (h : x.Survives) :
    (Json.ofFloat x).ReadsAs ofDocument? (float x) := by
  rw [ofFloat, if_pos h.1]
  refine ⟨h, fun _ => ?_⟩
  simp [document, ofDocument?, (Binary64.Survives.reads h).2, ofNumber]

mutual

/-- **A value is read back, and as a value of its kind.** -/
theorem readsAs : ∀ {v : Value}, (∀ x ∈ v.floats, x.Survives) → v.toJson.ReadsAs ofDocument? v
  | null, _ => ⟨trivial, fun _ => by simp [toJson, document, ofDocument?]⟩
  | bool _, _ => ⟨trivial, fun _ => by simp [toJson, document, ofDocument?]⟩
  | int i, _ => readsAs_int i
  | float x, h => readsAs_float (h x List.mem_cons_self)
  | string s, _ => (ReadsAs.str s).map fun _ => by
    simp [document, ofDocument?, Document.toText?]
  | list items, h => by
    rw [toJson, itemsToJson_eq]
    refine (ReadsAs.ofList (readsAs_each h)).map fun budget => ?_
    cases budget <;> rfl

theorem readsAs_each : ∀ {vs : List Value}, (∀ x ∈ floatsOf vs, x.Survives) →
    ∀ v ∈ vs, v.toJson.ReadsAs ofDocument? v
  | [], _ => List.forall_mem_nil _
  | _ :: _, h => by
    obtain ⟨hv, hvs⟩ := List.forall_mem_append.1 h
    exact List.forall_mem_cons.2 ⟨readsAs hv, readsAs_each hvs⟩

end

theorem readsAs_list {vs : List Value} (h : ∀ x ∈ floatsOf vs, x.Survives) :
    (Json.ofList toJson vs).ReadsAs listOfDocument? vs := by
  rw [listOfDocument?_eq]
  exact ReadsAs.ofList (readsAs_each h)

end Value

/-! ## Operands -/

namespace Operand

def floats : Operand → List Binary64
  | literal v => v.floats
  | expr _ => []

theorem readsAs {o : Operand} (h : ∀ x ∈ o.floats, x.Survives) :
    o.toJson.ReadsAs ofDocument? o := by
  cases o with
  | literal v =>
    refine .variant (Value.readsAs h) fun _ => ?_
    rw [document_variant, ofDocument?, Document.textOf?_encode]
    rfl
  | expr e =>
    refine .variant (.str e) fun _ => ?_
    rw [document_variant, ofDocument?, Document.textOf?_encode]
    rfl

end Operand

/-! ## Predicates -/

theorem CompareOp.readsAs (op : CompareOp) : op.toJson.ReadsAs CompareOp.ofDocument? op :=
  ⟨trivial, fun {budget} _ => Document.choice?_name (by cases op <;> decide) budget⟩

namespace Predicate

mutual

/-- The floating-point numbers in a predicate. -/
def floats : Predicate → List Binary64
  | compare _ operand => operand.floats
  | all ps => floatsOf ps
  | any ps => floatsOf ps
  | not p => floats p

def floatsOf : List Predicate → List Binary64
  | [] => []
  | p :: ps => floats p ++ floatsOf ps

end

theorem childrenToJson_eq (ps : List Predicate) : childrenToJson ps = ps.map toJson := by
  induction ps with
  | nil => rfl
  | cons p ps ih => rw [childrenToJson, ih, List.map_cons]

theorem childrenOf?_eq : childrenOf? = Document.itemsOf? ofDocument? := by
  funext budget
  cases budget <;> rfl

theorem readsAs_compare (op : CompareOp) {operand : Operand}
    (h : ∀ x ∈ operand.floats, x.Survives) :
    (Json.obj [("op", op.toJson), ("value", operand.toJson)]).ReadsAs compareOf?
      (compare op operand) := by
  have hop := op.readsAs
  have hoperand := operand.readsAs h
  refine .obj (by simp [hop.prints, hoperand.prints]) fun budget hdepth => ?_
  obtain ⟨dop, doperand⟩ : op.toJson.depth ≤ budget ∧ operand.toJson.depth ≤ budget := by
    simpa using hdepth
  rw [compareOf?, Document.record?_obj (by simp)]
  simp [Document.orDefault?, hop.reads dop, hoperand.reads doperand]

mutual

/-- **A predicate is read back.** -/
theorem readsAs : ∀ {p : Predicate}, (∀ x ∈ p.floats, x.Survives) → p.toJson.ReadsAs ofDocument? p
  | compare op _, h => .variant (f := id) (readsAs_compare op h) fun _ => by
    rw [document_variant, ofDocument?, Document.textOf?_encode, Option.map_id]
    rfl
  | all ps, h => by
    rw [toJson, childrenToJson_eq]
    refine .variant (ReadsAs.ofList (readsAs_each h)) fun _ => ?_
    rw [document_variant, ofDocument?, Document.textOf?_encode, ← childrenOf?_eq]
    rfl
  | any ps, h => by
    rw [toJson, childrenToJson_eq]
    refine .variant (ReadsAs.ofList (readsAs_each h)) fun _ => ?_
    rw [document_variant, ofDocument?, Document.textOf?_encode, ← childrenOf?_eq]
    rfl
  | not _, h => .variant (readsAs h) fun _ => by
    rw [document_variant, ofDocument?, Document.textOf?_encode]
    rfl

theorem readsAs_each : ∀ {ps : List Predicate}, (∀ x ∈ floatsOf ps, x.Survives) →
    ∀ p ∈ ps, p.toJson.ReadsAs ofDocument? p
  | [], _ => List.forall_mem_nil _
  | _ :: _, h => by
    obtain ⟨hp, hps⟩ := List.forall_mem_append.1 h
    exact List.forall_mem_cons.2 ⟨readsAs hp, readsAs_each hps⟩

end

end Predicate
end TraversalPlan
