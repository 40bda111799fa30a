import TraversalPlan.Proofs.Lowering.Success
import TraversalPlan.Proofs.Plan.Decoding
import TraversalPlan.Traversal.Build

/-!
# Ids in the bytes of a plan

The bytes of an id do not tell its kind. A boolean and an integer may have the same bytes, and a null
has none, so that the number of the next operator is taken for an id. Two plans with the same bytes
are the same just if the kinds of their ids agree as far as both have ids
(**`ids_of_encode`**).

* `Plan.eq_iff_kinds_of_encode`: when plans with the same bytes are the same.
* `Traversal.exists_source_of_lower`: a traversal that starts at vertices has a plan that does.
* `vertices_same_bytes`: different ids with the same bytes.
-/

namespace TraversalPlan

/-- **The kinds of ids are all that the bytes of a plan leave out.** -/
theorem Plan.eq_iff_kinds_of_encode {p q : Plan} (hp : p.Fits) (hq : q.Fits)
    (h : p.encode = q.encode) : p = q ↔ p.kinds <+: q.kinds ∨ q.kinds <+: p.kinds := by
  have hbytes : p.encode ++ [] = q.encode ++ [] := by rw [h]
  constructor
  · rintro rfl
    exact .inl (List.prefix_refl _)
  · rintro (hkinds | hkinds)
    · exact (eq_of_encode hp hq hkinds hbytes).1
    · exact (eq_of_encode hq hp hkinds hbytes.symm).1.symm

namespace Traversal

/-- A traversal that starts at the vertices of some ids, and goes on with further steps. -/
def fromVertices (ids : List Value) (labels : List String) (steps : List Step) : Traversal :=
  ⟨⟨.elementary (.source .vertex ids), labels⟩ :: steps⟩

/-- The plan starts with the source of the ids. -/
theorem exists_source_of_lower {order : List Nat} {config : Config} {ids : List Value}
    {labels : List String} {steps : List Step} {p : Plan}
    (h : (fromVertices ids labels steps).lowerEnding order config = .ok p) :
    ∃ rest, p.operators = .source .vertex ids :: rest := by
  obtain ⟨depth, parts, hparts, rfl⟩ := steps_of_build h
  rw [fromVertices, List.zipIdx_cons] at hparts
  cases hparts with
  | @cons _ ops _ rest hops hrest =>
    obtain ⟨own, hown, rfl⟩ := Step.lower_eq_ok.1 hops
    obtain rfl := Except.ok.inj (StepKind.lowerIn_elementary_eq_ok.1 hown)
    exact ⟨_, rfl⟩

/-- **Ids survive encoding just if their kinds are told.** Two traversals that start at the vertices of
some ids, and whose plans have the same bytes, have the same ids and plans if and only if the kinds of
all ids in the plans agree as far as both have ids. Steps that are lowered at the same time may end in
any order. -/
theorem ids_of_encode {order order' : List Nat} {config config' : Config} {ids ids' : List Value}
    {labels labels' : List String} {steps steps' : List Step} {p p' : Plan}
    (hp : (fromVertices ids labels steps).lowerEnding order config = .ok p)
    (hp' : (fromVertices ids' labels' steps').lowerEnding order' config' = .ok p')
    (hfits : p.Fits) (hfits' : p'.Fits) (h : p.encode = p'.encode) :
    (ids = ids' ∧ p = p') ↔ p.kinds <+: p'.kinds ∨ p'.kinds <+: p.kinds := by
  rw [← Plan.eq_iff_kinds_of_encode hfits hfits' h]
  constructor
  · exact And.right
  · rintro rfl
    obtain ⟨rest, hrest⟩ := exists_source_of_lower hp
    obtain ⟨rest', hrest'⟩ := exists_source_of_lower hp'
    have hhead := (List.cons.inj (hrest.symm.trans hrest')).1
    exact ⟨(Operator.source.inj hhead).2, rfl⟩

theorem ids_of_encode_trueAndMinusOne :
    let p : Plan := ⟨[.source .vertex [.bool true], .bind (.named "a")]⟩
    let p' : Plan := ⟨[.source .vertex [.int (-1)], .bind (.named "a")]⟩
    ((fromVertices [.bool true] ["a"] []).lower .standard = .ok p ∧
      (fromVertices [.int (-1)] ["a"] []).lower .standard = .ok p' ∧
      p.Fits ∧ p'.Fits ∧ p.encode = p'.encode) ∧
    ¬ (p.kinds <+: p'.kinds ∨ p'.kinds <+: p.kinds) := by
  intro p p'
  have hp : (fromVertices [.bool true] ["a"] []).lower .standard = .ok p := by cbv
  have hp' : (fromVertices [.int (-1)] ["a"] []).lower .standard = .ok p' := by cbv
  have hname : "a".utf8ByteSize < UInt64.size := by decide
  have hfits : p.Fits := by
    simpa [p, Plan.Fits, Binary.ListFits, Operator.Fits, Value.Fits, Alias.Fits, Alias.named,
      Binary.StringFits, UInt64.size] using hname
  have hfits' : p'.Fits := by
    simpa [p', Plan.Fits, Binary.ListFits, Operator.Fits, Value.Fits, Alias.Fits, Alias.named,
      Binary.StringFits, UInt64.size] using hname
  have hbytes : p.encode = p'.encode := by decide
  refine ⟨⟨hp, hp', hfits, hfits', hbytes⟩, fun hkinds => ?_⟩
  obtain ⟨hids, -⟩ := (ids_of_encode hp hp' hfits hfits' hbytes).2 hkinds
  cases hids

/-- A boolean has the bytes of an integer. A null has none, so that in its place the number of the
operator after it is taken for an integer. -/
theorem vertices_same_bytes :
    (∀ t ∈ [identity.vertices [.bool true], identity.vertices [.int (-1)]],
        (t.lower .standard).map Plan.encode = .ok [1, 0, 0, 1, 1]) ∧
      (∀ t ∈ [(identity.vertices [.null]).outgoing [], (identity.vertices [.int (-1)]).vertices []],
        (t.lower .standard).map Plan.encode = .ok [2, 0, 0, 1, 1, 0, 0, 0]) ∧
      Value.bool true ≠ .int (-1) ∧ Value.null ≠ .int (-1) := by
  refine ⟨?_, ?_, nofun, nofun⟩
  · rw [List.forall_mem_cons, List.forall_mem_singleton]
    constructor <;> rfl
  · rw [List.forall_mem_cons, List.forall_mem_singleton]
    constructor <;> rfl

end Traversal
end TraversalPlan
