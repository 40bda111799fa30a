import TraversalPlan.Plan.Names
import TraversalPlan.Text.Escaped

/-!
# Listings of plans

* `Operator.detail`: the arguments of an operator on one line.
* `Plan.rows`: one row for each operator at any depth, those of a subplan right after the operator
  that runs it.
-/

namespace TraversalPlan

/-- The items with a comma and a blank between them. -/
def commaSeparated (xs : List String) : String := ", ".intercalate xs

def ProjectItem.text (i : ProjectItem) : String :=
  match i.column with
  | some a => i.expression ++ " AS " ++ a.name
  | none => i.expression

/-- The direction of a sort key in a listing. -/
def SortOrder.mark : SortOrder → String
  | ascending => "ASC"
  | descending => "DESC"
  | shuffle => "SHUFFLE"

def SortKey.text (k : SortKey) : String := k.expression ++ " " ++ k.order.mark

def GroupKey.text (k : GroupKey) : String := k.expression ++ " AS " ++ k.column.name

def Aggregate.text (a : Aggregate) : String :=
  a.kind.name ++ "(" ++ a.source.getD "@" ++ ") AS " ++ a.column.name

def SampleAmount.text : SampleAmount → String
  | count n => n.toNat.repr
  | ratio r => Layout.plain.write r

/-- The arguments of an operator on one line. -/
def Operator.detail : Operator → String
  | source element ids => element.name ++ " [" ++ commaSeparated (ids.map Value.text) ++ "]"
  | expand direction element labels =>
    direction.name ++ " " ++ element.name ++ " " ++ Escaped.writeList labels
  | endpoint which => which.name
  | limit lower upper => "[" ++ lower.toNat.repr ++ ", " ++ upper.toNat.repr ++ ")"
  | bind a => a.name
  | apply _ join a => join.name ++ " -> " ++ (a.map Alias.name).getD "-"
  | project items => commaSeparated (items.map ProjectItem.text)
  | dedup keys => commaSeparated keys
  | order keys => commaSeparated (keys.map SortKey.text)
  | group keys values =>
    "keys: [" ++ commaSeparated (keys.map GroupKey.text) ++ "] values: [" ++
      commaSeparated (values.map Aggregate.text) ++ "]"
  | select predicate => predicate
  | sample amount seed probability =>
    amount.text ++ " seed=" ++ seed.toNat.repr ++ " by " ++ probability

/-! ## Rows -/

/-- A row of a listing: the path of indexes to an operator, its name and its arguments. -/
structure Row where
  path : List Nat
  operator : String
  detail : String
deriving DecidableEq, Repr

/-- The path with points between its indexes. -/
def Row.index (r : Row) : String := ".".intercalate (r.path.map Nat.repr)

def Row.cells (r : Row) : List String := [r.index, r.operator, r.detail]

/-- The rows of operators under a path, numbered from an index on. -/
def Operator.rows (path : List Nat) (i : Nat) : List Operator → List Row
  | [] => []
  | apply subplan join a :: rest =>
    ⟨path ++ [i], (apply subplan join a).name, (apply subplan join a).detail⟩ ::
      (rows (path ++ [i]) 0 subplan ++ rows path (i + 1) rest)
  | o :: rest => ⟨path ++ [i], o.name, o.detail⟩ :: rows path (i + 1) rest

def Plan.rows (p : Plan) : List Row := Operator.rows [] 0 p.operators

end TraversalPlan
