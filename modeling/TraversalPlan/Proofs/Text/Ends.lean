import Mathlib.Tactic.Common

/-!
# Where a text ends

The parts of a name or of a literal are written one after the other, so each part has to say where it
ends.

* **`run_append_inj`**: a part with characters of one kind ends where a character of another kind
  stands.
* **`escape_append_inj`**: inside delimiters the closing one and the backslash follow a backslash, as
  in a quoted literal and in the tag of a generated name. Such a part ends at the first closing
  delimiter without a backslash, whatever it holds.
-/

namespace TraversalPlan

/-! ## Characters of one kind -/

section Runs

variable {kind : Char → Bool} {as bs r s : List Char}

theorem takeWhile_run (has : ∀ c ∈ as, kind c) (hr : ∀ c ∈ r.head?, kind c = false) :
    (as ++ r).takeWhile kind = as ∧ (as ++ r).dropWhile kind = r := by
  rw [List.takeWhile_append_of_pos has, List.dropWhile_append_of_pos has]
  cases r with
  | nil => simp
  | cons c r => simp [hr c rfl]

/-- **Characters of one kind end** where another one stands. -/
theorem run_append_inj (has : ∀ c ∈ as, kind c) (hbs : ∀ c ∈ bs, kind c)
    (hr : ∀ c ∈ r.head?, kind c = false) (hs : ∀ c ∈ s.head?, kind c = false)
    (h : as ++ r = bs ++ s) : as = bs ∧ r = s := by
  obtain ⟨htake, hdrop⟩ := takeWhile_run has hr
  obtain ⟨htake', hdrop'⟩ := takeWhile_run hbs hs
  rw [h] at htake hdrop
  exact ⟨htake.symm.trans htake', hdrop.symm.trans hdrop'⟩

end Runs

/-! ## Escaped characters -/

/-- A character inside delimiters: the closing one and the backslash follow a backslash. -/
def escapeChar (close c : Char) : List Char := if c = close ∨ c = '\\' then ['\\', c] else [c]

variable {close : Char}

theorem escapeChar_of_mem {c : Char} (h : c = close ∨ c = '\\') : escapeChar close c = ['\\', c] :=
  if_pos h

theorem escapeChar_of_not {c : Char} (h : ¬ (c = close ∨ c = '\\')) : escapeChar close c = [c] :=
  if_neg h

/-- An escaped character is not the closing delimiter. -/
theorem escapeChar_append_ne (hclose : close ≠ '\\') (c : Char) (r s : List Char) :
    escapeChar close c ++ r ≠ close :: s := by
  intro h
  by_cases hc : c = close ∨ c = '\\'
  · rw [escapeChar_of_mem hc] at h
    exact hclose (List.cons.inj h).1.symm
  · rw [escapeChar_of_not hc] at h
    exact hc (.inl (List.cons.inj h).1)

theorem escapeChar_append_inj {c d : Char} {r s : List Char}
    (h : escapeChar close c ++ r = escapeChar close d ++ s) : c = d ∧ r = s := by
  by_cases hc : c = close ∨ c = '\\' <;> by_cases hd : d = close ∨ d = '\\'
  · rw [escapeChar_of_mem hc, escapeChar_of_mem hd] at h
    simpa using h
  · rw [escapeChar_of_mem hc, escapeChar_of_not hd] at h
    exact absurd (.inr (List.cons.inj h).1.symm) hd
  · rw [escapeChar_of_not hc, escapeChar_of_mem hd] at h
    exact absurd (.inr (List.cons.inj h).1) hc
  · rw [escapeChar_of_not hc, escapeChar_of_not hd] at h
    simpa using h

/-- **An escaped text ends at its closing delimiter.** -/
theorem escape_append_inj (hclose : close ≠ '\\') : ∀ {t u r s : List Char},
    t.flatMap (escapeChar close) ++ close :: r = u.flatMap (escapeChar close) ++ close :: s →
      t = u ∧ r = s
  | [], [], r, s, h => by simpa using h
  | [], d :: u, r, s, h => by
    rw [List.flatMap_cons, List.append_assoc] at h
    exact absurd h.symm (escapeChar_append_ne hclose d _ _)
  | c :: t, [], r, s, h => by
    rw [List.flatMap_cons, List.append_assoc] at h
    exact absurd h (escapeChar_append_ne hclose c _ _)
  | c :: t, d :: u, r, s, h => by
    rw [List.flatMap_cons, List.flatMap_cons, List.append_assoc, List.append_assoc] at h
    obtain ⟨hcd, hrest⟩ := escapeChar_append_inj h
    obtain ⟨htu, hrs⟩ := escape_append_inj hclose hrest
    exact ⟨by rw [hcd, htu], hrs⟩

end TraversalPlan
