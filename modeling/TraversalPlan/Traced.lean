import TraversalPlan.Event

/-!
# Traced computations

A computation that may fail, with the events up to its end. A failure keeps the events before it.

* `Traced.emit`, `Traced.fail`: one event list, one failure.
* `Traced.traverse`: a computation for each item in turn, up to the first failure.
* `log_bind`, `result_bind`: what a sequence logs, and how it ends. The monad laws hold.
* `length_of_traverse`: a traversal that succeeds has one result for each item.
-/

namespace TraversalPlan

/-- An outcome and the events that led to it. -/
@[ext]
structure Traced (ε α : Type) where
  log : List Event
  result : Except ε α

namespace Traced

variable {ε α β : Type}

protected def pure (a : α) : Traced ε α := ⟨[], .ok a⟩

protected def bind (x : Traced ε α) (f : α → Traced ε β) : Traced ε β :=
  match x.result with
  | .error e => ⟨x.log, .error e⟩
  | .ok a => ⟨x.log ++ (f a).log, (f a).result⟩

instance : Monad (Traced ε) where
  pure := Traced.pure
  bind := Traced.bind

instance [Inhabited α] : Inhabited (Traced ε α) := ⟨.pure default⟩

def fail (e : ε) : Traced ε α := ⟨[], .error e⟩

def ofExcept (r : Except ε α) : Traced ε α := ⟨[], r⟩

/-- Logs events. -/
def emit (events : List Event) : Traced ε Unit := ⟨events, .ok ()⟩

/-- Computes something for each item in turn. -/
def traverse (f : α → Traced ε β) : List α → Traced ε (List β)
  | [] => pure []
  | a :: as => do
    let b ← f a
    let bs ← traverse f as
    return b :: bs

/-! ## Logs and results -/

@[simp]
theorem log_pure (a : α) : (pure a : Traced ε α).log = [] := rfl

@[simp]
theorem result_pure (a : α) : (pure a : Traced ε α).result = .ok a := rfl

@[simp]
theorem log_fail (e : ε) : (fail e : Traced ε α).log = [] := rfl

@[simp]
theorem result_fail (e : ε) : (fail e : Traced ε α).result = .error e := rfl

@[simp]
theorem log_ofExcept (r : Except ε α) : (ofExcept r).log = [] := rfl

@[simp]
theorem result_ofExcept (r : Except ε α) : (ofExcept r).result = r := rfl

@[simp]
theorem log_emit (events : List Event) : (emit events : Traced ε Unit).log = events := rfl

@[simp]
theorem result_emit (events : List Event) : (emit events : Traced ε Unit).result = .ok () := rfl

/-- The second part logs only if the first succeeds. -/
theorem log_bind (x : Traced ε α) (f : α → Traced ε β) :
    (x >>= f).log = x.log ++ match x.result with
      | .ok a => (f a).log
      | .error _ => [] := by
  obtain ⟨log, _ | a⟩ := x
  · exact (List.append_nil log).symm
  · rfl

theorem result_bind (x : Traced ε α) (f : α → Traced ε β) :
    (x >>= f).result = x.result.bind fun a => (f a).result := by
  obtain ⟨log, _ | a⟩ := x <;> rfl

/-- A sequence succeeds when both parts do. -/
theorem result_bind_eq_ok {x : Traced ε α} {f : α → Traced ε β} {b : β} :
    (x >>= f).result = .ok b ↔ ∃ a, x.result = .ok a ∧ (f a).result = .ok b := by
  rw [result_bind]
  cases x.result <;> simp [Except.bind]

/-- A sequence fails where its first part fails, or else where its second does. -/
theorem result_bind_eq_error {x : Traced ε α} {f : α → Traced ε β} {e : ε} :
    (x >>= f).result = .error e ↔
      x.result = .error e ∨ ∃ a, x.result = .ok a ∧ (f a).result = .error e := by
  rw [result_bind]
  cases x.result <;> simp [Except.bind]

/-- After a success the second part runs. -/
theorem bind_of_ok {x : Traced ε α} {a : α} (h : x.result = .ok a) (f : α → Traced ε β) :
    x >>= f = ⟨x.log ++ (f a).log, (f a).result⟩ := by
  obtain ⟨log, result⟩ := x
  cases h
  rfl

/-- After a failure nothing runs. -/
theorem bind_of_error {x : Traced ε α} {e : ε} (h : x.result = .error e) (f : α → Traced ε β) :
    x >>= f = ⟨x.log, .error e⟩ := by
  obtain ⟨log, result⟩ := x
  cases h
  rfl

theorem bind_bind {γ : Type} (x : Traced ε α) (f : α → Traced ε β) (g : β → Traced ε γ) :
    x >>= f >>= g = x >>= fun a => f a >>= g := by
  obtain ⟨log, _ | a⟩ := x
  · rfl
  · simp only [bind, Traced.bind]
    cases (f a).result <;> simp [List.append_assoc]

instance : LawfulMonad (Traced ε) :=
  LawfulMonad.mk' (Traced ε)
    (by rintro α ⟨log, _ | a⟩ <;> simp [Functor.map, Traced.bind, Traced.pure])
    (fun a f => by simp [bind, Traced.bind, pure, Traced.pure])
    bind_bind

/-! ## Traversing lists -/

@[simp]
theorem traverse_nil (f : α → Traced ε β) : traverse f [] = pure [] := rfl

theorem traverse_cons (f : α → Traced ε β) (a : α) (as : List α) :
    traverse f (a :: as) = do
      let b ← f a
      let bs ← traverse f as
      return b :: bs := rfl

/-- **There is one result for each item.** -/
theorem length_of_traverse {f : α → Traced ε β} {as : List α} {bs : List β}
    (h : (traverse f as).result = .ok bs) : bs.length = as.length := by
  induction as generalizing bs with
  | nil => simp_all
  | cons a as ih =>
    rw [traverse_cons, result_bind_eq_ok] at h
    obtain ⟨b, -, h⟩ := h
    obtain ⟨rest, hrest, h⟩ := result_bind_eq_ok.1 h
    obtain rfl : b :: rest = bs := by simpa using h
    simp [ih hrest]

end Traced
end TraversalPlan
