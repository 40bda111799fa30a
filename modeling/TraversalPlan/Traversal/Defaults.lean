import TraversalPlan.Traversal.Basic

/-!
# What a modulated step does without modulators

* `SelectStep.modulatorFor`: the modulators of a `select` in turn, identity if there are none.
* `DedupStep.tags`, `DedupStep.isPlain`: without keys a `dedup` looks at the current record.
* `OrderStep.sortKeys`, `GroupStep.keyTraversals`, `GroupStep.valueTraversals`: the parts of `order`
  and `group` with their defaults filled in.
-/

namespace TraversalPlan

/-- The modulator of the key with an index. -/
def SelectStep.modulatorFor (s : SelectStep) (i : Nat) : Traversal :=
  s.bys.getD (i % s.bys.length) .identity

/-- A modulator is one of those given, or does nothing. -/
theorem SelectStep.modulatorFor_eq_identity_or_mem (s : SelectStep) (i : Nat) :
    s.modulatorFor i = .identity ∨ s.modulatorFor i ∈ s.bys := by
  unfold modulatorFor
  rw [List.getD_eq_getElem?_getD]
  cases hi : s.bys[i % s.bys.length]? with
  | none => exact .inl rfl
  | some t => exact .inr (List.mem_of_getElem? hi)

namespace DedupStep

/-- The tags to look at; the empty tag is the current record. -/
def tags (s : DedupStep) : List String := if s.keys.isEmpty then [""] else s.keys

def modulatorOrIdentity (s : DedupStep) : Traversal := s.modulator.getD .identity

/-- A `dedup` of the current record as it is. -/
def isPlain (s : DedupStep) : Bool :=
  s.keys.isEmpty && (s.modulator.map Traversal.isIdentity).getD true

end DedupStep

def SampleStep.modulatorOrIdentity (s : SampleStep) : Traversal := s.modulator.getD .identity

/-- The comparators, or the current record ascending if there are none. -/
def OrderStep.sortKeys (s : OrderStep) : List Comparator :=
  if s.comparators.isEmpty then [⟨.identity, .ascending⟩] else s.comparators

namespace GroupStep

/-- The keys, or the current record if there are none. -/
def keyTraversals (s : GroupStep) : List Traversal :=
  if s.keys.isEmpty then [.identity] else s.keys

/-- The values. If there are none, a group is counted or collected into a list. -/
def valueTraversals (s : GroupStep) : List Traversal :=
  if s.values.isEmpty then
    [⟨[.ofKind (.elementary (.reduce (if s.count then .count else .fold)))]⟩]
  else s.values

end GroupStep

/-- The tag that a `where` starts from; the empty tag is the current record. -/
def WherePredicateStep.startTag (s : WherePredicateStep) : String := s.startKey.getD ""

end TraversalPlan
