import TraversalPlan.Proofs.Plan.Reading

/-!
# Decoding plans

Every operator begins with its number and goes on with its fields in order, so a plan is read back from
its bytes whatever follows them. An engine that takes all ids for integers thus recovers every plan
whose ids are integers (**`Plan.decode?_encode`**). If it is told the kinds of the ids, it recovers
every plan (**`Plan.eq_of_encode`**).

* `Operator.ids`, `Plan.ids`: the ids in a plan, in the order of writing.
* `Plan.Fits`: no string or list is so long that its length takes more than 64 bits.
* `Operator.read`, `Plan.read`: read operators nested no deeper than given.
* `Operator.reads`, `Plan.reads`: what is written is read back.
* `Plan.decode?`: the plan at the front of some bytes and the bytes after it.
-/

namespace TraversalPlan

open Binary

/-! ## Ids -/

namespace Operator

mutual

/-- The ids in the operator and in its subplan. -/
def ids : Operator → List Value
  | source _ ids => ids
  | apply subplan _ _ => idsOf subplan
  | _ => []

def idsOf : List Operator → List Value
  | [] => []
  | o :: os => ids o ++ idsOf os

end

theorem idsOf_eq_flatMap (os : List Operator) : idsOf os = os.flatMap ids := by
  induction os with
  | nil => rfl
  | cons o os ih => rw [idsOf, ih, List.flatMap_cons]

theorem encodeAll_eq_flatMap (os : List Operator) : encodeAll os = os.flatMap encode := by
  induction os with
  | nil => rfl
  | cons o os ih => rw [encodeAll, ih, List.flatMap_cons]

theorem operatorCount_le {o : Operator} {os : List Operator} (h : o ∈ os) :
    o.operatorCount ≤ operatorsCount os := by
  induction os with
  | nil => cases h
  | cons o' os ih =>
    rw [operatorsCount]
    rcases List.mem_cons.1 h with rfl | h
    · exact Nat.le_add_right _ _
    · exact Nat.le_trans (ih h) (Nat.le_add_left _ _)

end Operator

/-! ## Lengths -/

def Alias.Fits (a : Alias) : Prop := StringFits a.name

def ProjectItem.Fits (i : ProjectItem) : Prop :=
  StringFits i.expression ∧ ∀ a ∈ i.column, a.Fits

def SortKey.Fits (k : SortKey) : Prop := StringFits k.expression

def GroupKey.Fits (k : GroupKey) : Prop := StringFits k.expression ∧ k.column.Fits

def Aggregate.Fits (a : Aggregate) : Prop := (∀ e ∈ a.source, StringFits e) ∧ a.column.Fits

namespace Operator

mutual

/-- Lengths inside the operator take no more than 64 bits. -/
def Fits : Operator → Prop
  | source _ ids => ListFits Value.Fits ids
  | expand _ _ labels => ListFits StringFits labels
  | endpoint _ => True
  | limit _ _ => True
  | bind a => a.Fits
  | apply subplan _ a => subplan.length < UInt64.size ∧ AllFit subplan ∧ ∀ b ∈ a, b.Fits
  | project items => ListFits ProjectItem.Fits items
  | dedup keys => ListFits StringFits keys
  | order keys => ListFits SortKey.Fits keys
  | group keys values => ListFits GroupKey.Fits keys ∧ ListFits Aggregate.Fits values
  | select predicate => StringFits predicate
  | sample _ _ probability => StringFits probability

def AllFit : List Operator → Prop
  | [] => True
  | o :: os => Fits o ∧ AllFit os

end

theorem allFit_iff {os : List Operator} : AllFit os ↔ ∀ o ∈ os, o.Fits := by
  induction os with
  | nil => simp [AllFit]
  | cons o os ih => rw [AllFit, ih, List.forall_mem_cons]

end Operator

/-! ## Readers of the parts of operators -/

def Alias.read : Reader Alias := do
  let name ← readString
  let userDefined ← readBool
  return ⟨name, userDefined⟩

def ProjectItem.read : Reader ProjectItem := do
  let expression ← readString
  let column ← readOption Alias.read
  return ⟨expression, column⟩

def SortKey.read : Reader SortKey := do
  let expression ← readString
  let order ← readChoice [.ascending, .descending, .shuffle]
  return ⟨expression, order⟩

def GroupKey.read : Reader GroupKey := do
  let expression ← readString
  let column ← Alias.read
  return ⟨expression, column⟩

def AggregateKind.read : Reader AggregateKind :=
  readChoice [.count, .countDistinct, .sum, .avg, .min, .max, .toList, .toSet]

def Aggregate.read : Reader Aggregate := do
  let kind ← AggregateKind.read
  let source ← readOption readString
  let column ← Alias.read
  return ⟨kind, source, column⟩

def SampleAmount.read : Reader SampleAmount := do
  match ← readNat with
  | 0 => do
    let n ← readUInt64
    return .count n
  | 1 => do
    let r ← readFloat
    return .ratio r
  | _ => failure

def ElementKind.read : Reader ElementKind := readChoice [.vertex, .edge]

def Direction.read : Reader Direction := readChoice [.outgoing, .incoming, .both]

def Endpoint.read : Reader Endpoint := readChoice [.source, .target, .both, .other]

def JoinKind.read : Reader JoinKind := readChoice [.inner, .semi, .anti]

/-- Reads an operator that counts no more operators than given, itself among them. -/
def Operator.read : Nat → Reader Operator
  | 0 => failure
  | count + 1 => do
    match ← readNat with
    | 0 => do
      let element ← ElementKind.read
      let ids ← readList readLiteral
      return .source element ids
    | 1 => do
      let direction ← Direction.read
      let element ← ElementKind.read
      let labels ← readList readString
      return .expand direction element labels
    | 2 => do
      let which ← Endpoint.read
      return .endpoint which
    | 3 => do
      let lower ← readUInt64
      let upper ← readUInt64
      return .limit lower upper
    | 4 => do
      let column ← Alias.read
      return .bind column
    | 5 => do
      let subplan ← readList (Operator.read count)
      let join ← JoinKind.read
      let column ← readOption Alias.read
      return .apply subplan join column
    | 6 => do
      let items ← readList ProjectItem.read
      return .project items
    | 7 => do
      let keys ← readList readString
      return .dedup keys
    | 8 => do
      let keys ← readList SortKey.read
      return .order keys
    | 9 => do
      let keys ← readList GroupKey.read
      let values ← readList Aggregate.read
      return .group keys values
    | 10 => do
      let predicate ← readString
      return .select predicate
    | 11 => do
      let amount ← SampleAmount.read
      let seed ← readUInt64
      let probability ← readString
      return .sample amount seed probability
    | _ => failure

/-! ## What is written is read back -/

theorem Alias.reads {a : Alias} (h : a.Fits) : Reads read [] a.encode a :=
  (reads_string h).bind ((reads_bool a.userDefined).result (Alias.mk a.name))

theorem ProjectItem.reads {i : ProjectItem} (h : i.Fits) : Reads read [] i.encode i :=
  (reads_string h.1).bind
    ((reads_option h.2 fun _ => Alias.reads).result (ProjectItem.mk i.expression))

theorem ElementKind.reads (k : ElementKind) : Reads read [] k.encode k := by
  cases k <;> exact reads_choice (by decide) rfl

theorem Direction.reads (d : Direction) : Reads read [] d.encode d := by
  cases d <;> exact reads_choice (by decide) rfl

theorem Endpoint.reads (e : Endpoint) : Reads read [] e.encode e := by
  cases e <;> exact reads_choice (by decide) rfl

theorem JoinKind.reads (k : JoinKind) : Reads read [] k.encode k := by
  cases k <;> exact reads_choice (by decide) rfl

theorem AggregateKind.reads (k : AggregateKind) : Reads read [] k.encode k := by
  cases k <;> exact reads_choice (by decide) rfl

theorem SortKey.reads {k : SortKey} (h : k.Fits) : Reads read [] k.encode k := by
  obtain ⟨expression, order⟩ := k
  have horder : Reads (readChoice [.ascending, .descending, .shuffle]) [] order.encode order := by
    cases order <;> exact reads_choice (by decide) rfl
  exact (reads_string h).bind (horder.result (SortKey.mk expression))

theorem GroupKey.reads {k : GroupKey} (h : k.Fits) : Reads read [] k.encode k :=
  (reads_string h.1).bind ((Alias.reads h.2).result (GroupKey.mk k.expression))

theorem Aggregate.reads {a : Aggregate} (h : a.Fits) : Reads read [] a.encode a := by
  rw [encode, List.append_assoc]
  exact a.kind.reads.bind ((reads_option h.1 fun _ => reads_string).bind
    ((Alias.reads h.2).result (Aggregate.mk a.kind a.source)))

theorem SampleAmount.reads (a : SampleAmount) : Reads read [] a.encode a := by
  cases a with
  | count n => exact (reads_nat (by decide)).bind ((reads_uint64 n).result SampleAmount.count)
  | ratio r => exact (reads_nat (by decide)).bind ((reads_float r).result SampleAmount.ratio)

/-- **An operator is read back**, and the ids in it by their kinds. -/
theorem Operator.reads {count : Nat} {o : Operator} (hcount : o.operatorCount ≤ count)
    (h : o.Fits) : Reads (read count) (o.ids.map Value.kind) o.encode o := by
  induction count generalizing o with
  | zero => cases o <;> simp [operatorCount] at hcount
  | succ count ih =>
    have htag : ∀ {n : Nat}, n < 12 → Reads readNat [] (ofNat n) n := fun hn =>
      reads_nat (Nat.lt_trans hn (by decide))
    cases o with
    | source element ids =>
      have hids := reads_list h.1 fun v hv => reads_literal (h.2 v hv)
      rw [← List.map_eq_flatMap] at hids
      rw [encode, List.append_assoc]
      exact (htag (by decide)).bind (element.reads.bind (hids.result (source element)))
    | expand direction element labels =>
      rw [encode, List.append_assoc, List.append_assoc]
      exact (htag (by decide)).bind (direction.reads.bind (element.reads.bind
        ((reads_plainList h fun _ => reads_string).result (expand direction element))))
    | endpoint which => exact (htag (by decide)).bind (which.reads.result endpoint)
    | limit lower upper =>
      rw [encode, List.append_assoc]
      exact (htag (by decide)).bind ((reads_uint64 lower).bind
        ((reads_uint64 upper).result (limit lower)))
    | bind a => exact (htag (by decide)).bind ((Alias.reads h).result Operator.bind)
    | apply subplan join a =>
      obtain ⟨hlength, hsubplan, ha⟩ := h
      have hinner : Reads (readList (read count)) ((idsOf subplan).map Value.kind)
          (ofNat subplan.length ++ encodeAll subplan) subplan := by
        have hbelow : operatorsCount subplan ≤ count := by
          rw [operatorCount] at hcount
          omega
        have hread := reads_list hlength fun o ho =>
          ih (Nat.le_trans (operatorCount_le ho) hbelow) (allFit_iff.1 hsubplan o ho)
        rwa [ofList, ← encodeAll_eq_flatMap, ← List.map_flatMap, ← idsOf_eq_flatMap] at hread
      rw [encode, List.append_assoc, List.append_assoc]
      exact (htag (by decide)).bind (hinner.bindPlain (join.reads.bind
        ((reads_option ha fun _ => Alias.reads).result (apply subplan join))))
    | project items =>
      exact (htag (by decide)).bind
        ((reads_plainList h fun _ => ProjectItem.reads).result project)
    | dedup keys =>
      exact (htag (by decide)).bind ((reads_plainList h fun _ => reads_string).result dedup)
    | order keys =>
      exact (htag (by decide)).bind ((reads_plainList h fun _ => SortKey.reads).result order)
    | group keys values =>
      rw [encode, List.append_assoc]
      exact (htag (by decide)).bind ((reads_plainList h.1 fun _ => GroupKey.reads).bind
        ((reads_plainList h.2 fun _ => Aggregate.reads).result (group keys)))
    | select predicate => exact (htag (by decide)).bind ((reads_string h).result select)
    | sample amount seed probability =>
      rw [encode, List.append_assoc, List.append_assoc]
      exact (htag (by decide)).bind (amount.reads.bind ((reads_uint64 seed).bind
        ((reads_string h).result (sample amount seed))))

/-! ## Plans -/

namespace Plan

/-- The ids at all depths, in the order of writing. -/
def ids (p : Plan) : List Value := Operator.idsOf p.operators

/-- The kinds of the ids. -/
def kinds (p : Plan) : List Kind := p.ids.map Value.kind

/-- Lengths in the plan take no more than 64 bits. -/
def Fits (p : Plan) : Prop := ListFits Operator.Fits p.operators

/-- Reads a plan of no more operators than given, at all depths. -/
def read (count : Nat) : Reader Plan := do
  let operators ← readList (Operator.read count)
  return ⟨operators⟩

/-- **A plan is read back**, and the ids in it by their kinds. -/
theorem reads {count : Nat} {p : Plan} (hcount : p.operatorCount ≤ count) (h : p.Fits) :
    Reads (read count) p.kinds p.encode p := by
  have hread := reads_list h.1 fun o ho =>
    Operator.reads (Nat.le_trans (Operator.operatorCount_le ho) hcount) (h.2 o ho)
  rw [ofList, ← Operator.encodeAll_eq_flatMap, ← List.map_flatMap,
    ← Operator.idsOf_eq_flatMap] at hread
  exact hread.result Plan.mk

/-- **Ids whose kinds agree as far as both plans have ids make the bytes tell the plan**, and where it
ends. -/
theorem eq_of_encode {p q : Plan} {x y : List UInt8} (hp : p.Fits) (hq : q.Fits)
    (hkinds : p.kinds <+: q.kinds) (h : p.encode ++ x = q.encode ++ y) : p = q ∧ x = y := by
  obtain ⟨ks, hks⟩ := hkinds
  let count := max p.operatorCount q.operatorCount
  have hpread := reads (Nat.le_max_left _ _ : _ ≤ count) hp ks x
  have hqread := reads (Nat.le_max_right _ _ : _ ≤ count) hq [] y
  rw [List.append_nil, ← hks, ← h, hpread] at hqread
  simp only [Option.some.injEq, Prod.mk.injEq, Unread.mk.injEq] at hqread
  exact ⟨hqread.1, hqread.2.2⟩

end Plan

/-! ## Plans whose ids are integers -/

theorem Binary.length_ofNat_pos (n : Nat) : 0 < (ofNat n).length := by
  unfold ofNat
  repeat' split
  all_goals exact Nat.succ_pos _

/-- Integers take a byte each. -/
theorem Value.length_le_encode {vs : List Value} (h : ∀ v ∈ vs, ∃ i, v = .int i) :
    vs.length ≤ (vs.flatMap encode).length := by
  induction vs with
  | nil => exact Nat.le_refl _
  | cons v vs ih =>
    obtain ⟨⟨i, rfl⟩, htail⟩ := List.forall_mem_cons.1 h
    have hbyte : 0 < (Value.int i).encode.length := length_ofNat_pos _
    have hrest := ih htail
    rw [List.flatMap_cons, List.length_cons, List.length_append]
    omega

namespace Operator

/-- The number of an operator takes a byte. -/
theorem length_encode_pos (o : Operator) : 0 < o.encode.length := by
  cases o
  all_goals
    simp only [encode, List.length_append]
    first
      | exact Nat.add_pos_left (length_ofNat_pos _) _
      | exact Nat.add_pos_left (Nat.add_pos_left (length_ofNat_pos _) _) _
      | exact Nat.add_pos_left (Nat.add_pos_left (Nat.add_pos_left (length_ofNat_pos _) _) _) _

mutual

/-- Every operator and every integer id takes a byte. -/
theorem count_le_encode : ∀ {o : Operator}, (∀ v ∈ o.ids, ∃ i, v = .int i) →
    o.operatorCount + o.ids.length ≤ o.encode.length
  | .source element ids, h => by
    have hids : ids.length ≤ (ids.flatMap Value.encode).length := Value.length_le_encode h
    have htag := length_ofNat_pos 0
    simp only [operatorCount, Operator.ids, encode, ofList, List.length_append]
    omega
  | .apply subplan join a, h => by
    have hsubplan := count_le_encodeAll h
    have htag := length_ofNat_pos 5
    simp only [operatorCount, Operator.ids, encode, List.length_append]
    omega
  | .expand _ _ _, _ => length_encode_pos _
  | .endpoint _, _ => length_encode_pos _
  | .limit _ _, _ => length_encode_pos _
  | .bind _, _ => length_encode_pos _
  | .project _, _ => length_encode_pos _
  | .dedup _, _ => length_encode_pos _
  | .order _, _ => length_encode_pos _
  | .group _ _, _ => length_encode_pos _
  | .select _, _ => length_encode_pos _
  | .sample _ _ _, _ => length_encode_pos _

theorem count_le_encodeAll : ∀ {os : List Operator}, (∀ v ∈ idsOf os, ∃ i, v = .int i) →
    operatorsCount os + (idsOf os).length ≤ (encodeAll os).length
  | [], _ => Nat.le_refl _
  | o :: os, h => by
    rw [idsOf, List.forall_mem_append] at h
    have hhead := count_le_encode h.1
    have htail := count_le_encodeAll h.2
    rw [operatorsCount, idsOf, encodeAll, List.length_append, List.length_append]
    omega

end

end Operator

namespace Plan

/-- The plan at the front of some bytes, if all ids in it are integers, and the bytes after it. -/
def decode? (bytes : List UInt8) : Option (Plan × List UInt8) :=
  ((read bytes.length).run ⟨List.replicate bytes.length .int, bytes⟩).map
    fun (p, rest) => (p, rest.bytes)

/-- Ids that are integers have as many kinds of integers. -/
theorem kinds_of_int {p : Plan} (h : ∀ v ∈ p.ids, ∃ i, v = .int i) :
    p.kinds = List.replicate p.ids.length .int := by
  refine List.eq_replicate_iff.2 ⟨List.length_map _, List.forall_mem_map.2 fun v hv => ?_⟩
  obtain ⟨i, rfl⟩ := h v hv
  rfl

/-- **Plans with integer ids are recovered from their bytes**, whatever follows them. So no two of
them have the same bytes, and the bytes of none begin with those of another. -/
theorem decode?_encode {p : Plan} (hfits : p.Fits) (hids : ∀ v ∈ p.ids, ∃ i, v = .int i) :
    (∀ x, decode? (p.encode ++ x) = some (p, x)) ∧
      ∀ q : Plan, q.Fits → (∀ v ∈ q.ids, ∃ i, v = .int i) → ∀ x y,
        p.encode ++ x = q.encode ++ y → p = q ∧ x = y := by
  have hdecode : ∀ q : Plan, q.Fits → (∀ v ∈ q.ids, ∃ i, v = .int i) → ∀ x,
      decode? (q.encode ++ x) = some (q, x) := by
    intro q hq hqids x
    let bytes := q.encode ++ x
    have hcount : q.operatorCount + q.ids.length ≤ bytes.length := by
      have hencode := Operator.count_le_encodeAll hqids
      rw [List.length_append, encode, List.length_append]
      exact Nat.le_trans hencode (by omega)
    have hkinds : List.replicate bytes.length .int =
        q.kinds ++ List.replicate (bytes.length - q.ids.length) .int := by
      rw [kinds_of_int hqids, List.replicate_append_replicate]
      congr 1
      omega
    have hread := reads (Nat.le_trans (Nat.le_add_right _ _) hcount) hq
    rw [decode?, hkinds, hread]
    rfl
  refine ⟨hdecode p hfits hids, fun q hq hqids x y h => ?_⟩
  have hp := hdecode p hfits hids x
  rw [h, hdecode q hq hqids y] at hp
  obtain ⟨rfl, rfl⟩ := Prod.mk.inj (Option.some.inj hp)
  exact ⟨rfl, rfl⟩

/-- Sorts two vertices by a subquery and draws one of them. -/
def sortTwo : Plan :=
  let degree : Alias := ⟨"~expr_1_0", false⟩
  let count : Aggregate := ⟨.count, none, ⟨"~values_1_0_1_0", false⟩⟩
  ⟨[.source .vertex [.int (-1), .int 300],
    .apply [.expand .outgoing .edge ["knows"], .group [] [count]] .inner (some degree),
    .order [⟨degree.expr, .descending⟩], .sample (.ratio ⟨0x3FE0000000000000⟩) 70000 "@"]⟩

theorem decode?_encode_sortTwo :
    sortTwo.Fits ∧ sortTwo.ids = [.int (-1), .int 300] ∧
      decode? (sortTwo.encode ++ [1, 2]) = some (sortTwo, [1, 2]) := by
  have hstrings : ∀ s ∈ ["knows", "~values_1_0_1_0", "~expr_1_0", "@~expr_1_0", "@"],
      s.utf8ByteSize < UInt64.size := by decide
  have hfits : sortTwo.Fits := by
    simpa [sortTwo, Fits, ListFits, Operator.Fits, Operator.AllFit, Value.Fits, Alias.Fits,
      Alias.expr, Aggregate.Fits, SortKey.Fits, StringFits, UInt64.size, and_assoc] using hstrings
  have hids : ∀ v ∈ sortTwo.ids, ∃ i, v = .int i := by
    simp [sortTwo, ids, Operator.idsOf, Operator.ids]
  exact ⟨hfits, rfl, (decode?_encode hfits hids).1 [1, 2]⟩

end Plan

end TraversalPlan
