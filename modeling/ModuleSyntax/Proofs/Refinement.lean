import ModuleSyntax.Proofs.Calls

namespace ModuleSyntax.Proofs.Refinement

open Parse Motion PairedExpression Calls

variable {α β ρ : Type}

def Settles (y : Nat → Parse α) (p : Parser) (o : Except Diagnostic α × Parser) : Prop :=
  ∃ k, ∀ n, k ≤ n → y n p = some o

variable {p q : Parser} {x : Parse α} {y : Nat → Parse α} {f : α → Parse β}
  {g : Nat → α → Parse β} {a : α} {o : Except Diagnostic β × Parser}

theorem Settles.bind (hy : Settles y p (.ok a, q)) (hg : Settles (fun n => g n a) q o) :
    Settles (fun n => y n >>= g n) p o := by
  obtain ⟨k, hk⟩ := hy
  obtain ⟨m, hm⟩ := hg
  refine ⟨max k m, fun n hn => ?_⟩
  dsimp only
  rw [bind_of_ok (hk n (by omega))]
  exact hm n (by omega)

theorem Settles.stop {d : Diagnostic} (hy : Settles y p (.error d, q)) :
    Settles (fun n => y n >>= g n) p (.error d, q) := by
  obtain ⟨k, hk⟩ := hy
  refine ⟨k, fun n hn => ?_⟩
  dsimp only
  rw [bind_apply, hk n hn]

theorem Settles.call {o : Except Diagnostic α × Parser} (h : Settles (fun n => y (n + 1)) p o) :
    Settles y p o := by
  obtain ⟨k, hk⟩ := h
  refine ⟨k + 1, fun n hn => ?_⟩
  obtain ⟨m, rfl⟩ := Nat.exists_eq_add_of_le' hn
  exact hk (m + k) (by omega)

/-- Whatever the first parse answers, the second does with enough calls. -/
def Refines (x : Parse α) (y : Nat → Parse α) (p : Parser) : Prop :=
  ∀ r q, x p = some (r, q) → q.tables = p.tables ∧ Settles y p (r, q)

def Simulates (x : Parse α) (y : Nat → Parse α) : Prop := ∀ p, p.tables = .standard → Refines x y p

theorem refines_of_moves (hx : Moves x) : Refines x (fun _ => x) p := by
  intro r q h
  obtain ⟨ts, hr⟩ := hx p r q h
  exact ⟨hr.tables, 0, fun _ _ => h⟩

theorem refines_pure (a : α) : Refines (pure a) (fun _ => pure a) p :=
  refines_of_moves (moves_pure a)

theorem refines_advance : Refines advance (fun _ => advance) p := refines_of_moves moves_advance

theorem refines_outOfCalls : Refines outOfCalls y p := fun _ _ h => nomatch h

theorem Refines.bind (hx : Refines x y p)
    (hf : ∀ a q, q.tables = p.tables → x p = some (.ok a, q) → Settles y p (.ok a, q) →
      Refines (f a) (fun n => g n a) q) : Refines (x >>= f) (fun n => y n >>= g n) p := by
  intro r s h
  rw [bind_apply] at h
  split at h
  · cases h
  · rename_i hp
    cases h
    obtain ⟨ht, hy⟩ := hx _ _ hp
    exact ⟨ht, hy.stop⟩
  · rename_i a q hp
    obtain ⟨ht, hy⟩ := hx _ _ hp
    obtain ⟨hs, hg⟩ := hf a q ht hp hy r s h
    exact ⟨hs.trans ht, hy.bind hg⟩

theorem Refines.call (h : Refines x (fun n => y (n + 1)) p) : Refines x y p :=
  fun r q hx => ⟨(h r q hx).1, (h r q hx).2.call⟩

theorem Refines.congr {X : Parse α} {Y : Nat → Parse α} (h : Refines X Y p)
    (hx : x p = X p) (hy : ∀ n, y n p = Y n p) : Refines x y p := by
  intro r q hr
  obtain ⟨ht, k, hk⟩ := h r q (hx ▸ hr)
  exact ⟨ht, k, fun n hn => (hy n).trans (hk n hn)⟩

theorem refines_kind {f : Kind → Parse α} {g : Nat → Kind → Parse α}
    (h : Refines (f p.current.kind) (fun n => g n p.current.kind) p) :
    Refines (kind >>= f) (fun n => kind >>= g n) p := h

theorem refines_previousEnd {f : Position → Parse α} {g : Nat → Position → Parse α}
    (h : Refines (f p.previousEnd) (fun n => g n p.previousEnd) p) :
    Refines (previousEnd >>= f) (fun n => previousEnd >>= g n) p := h

theorem refines_if {c : Prop} [Decidable c] {x' : Parse α} {y' : Nat → Parse α}
    (h : c → Refines x y p) (h' : ¬ c → Refines x' y' p) :
    Refines (if c then x else x') (fun n => if c then y n else y' n) p := by
  split
  · exact h ‹_›
  · exact h' ‹_›

section

variable {x : Parse (Expression Span)} {y : Nat → Parse (Expression Span)}
  {xs : Parse (List (Expression Span))} {ys : Nat → Parse (List (Expression Span))}

theorem refines_expect (k : Kind) : Refines (expect k) (fun _ => expect k) p := by
  refine refines_of_moves fun p r q h => ?_
  by_cases hk : p.current.kind ∈ [k]
  · rw [expect, expectOneOf_of_mem hk] at h
    exact moves_advance p r q h
  · rw [expect, expectOneOf_of_not_mem hk] at h
    cases h
    exact ⟨[], .refl p⟩

theorem refines_negation (h : Simulates x y) (hp : p.tables = .standard) :
    Refines (negation x) (fun n => negation (y n)) p := by
  refine refines_advance.bind fun sign q hq _ _ => ?_
  exact (h q (hq.trans hp)).bind fun e _ _ _ _ => refines_pure _

theorem refines_grouping (h : Simulates x y) (hp : p.tables = .standard) :
    Refines (grouping x) (fun n => grouping (y n)) p := by
  refine refines_advance.bind fun opening q hq _ _ => ?_
  refine (h q (hq.trans hp)).bind fun e _ _ _ _ => ?_
  exact (refines_expect _).bind fun _ _ _ _ _ => refines_previousEnd (refines_pure _)

theorem refines_closedList (h : Simulates xs ys) (hp : p.tables = .standard) (close : Mark) :
    Refines (closedList xs close) (fun n => closedList (ys n) close) p := by
  refine refines_kind (refines_if (fun _ => ?_) fun _ => ?_)
  · exact refines_advance.bind fun _ _ _ _ _ => refines_pure _
  · refine (h p hp).bind fun es q _ _ _ => refines_kind (refines_if (fun _ => ?_) fun _ => ?_)
    · exact refines_advance.bind fun _ _ _ _ _ => refines_pure _
    · intro r s hs
      cases hs
      exact ⟨rfl, 0, fun _ _ => rfl⟩

theorem refines_arrayLiteral (h : Simulates xs ys) (hp : p.tables = .standard) :
    Refines (arrayLiteral xs) (fun n => arrayLiteral (ys n)) p := by
  refine refines_advance.bind fun opening q hq _ _ => ?_
  refine (refines_closedList h (hq.trans hp) _).bind fun es _ _ _ _ => ?_
  exact refines_previousEnd (refines_pure _)

theorem refines_assignment (h : Simulates x y) (hp : p.tables = .standard)
    (left : Expression Span) :
    Refines (assignment x left) (fun n => assignment (y n) left) p := by
  refine refines_if (fun _ => ?_) fun _ => ?_
  · refine refines_advance.bind fun _ q hq _ _ => ?_
    exact (h q (hq.trans hp)).bind fun e _ _ _ _ => refines_pure _
  · intro r s hs
    cases hs
    exact ⟨rfl, 0, fun _ _ => rfl⟩

theorem refines_call (h : Simulates xs ys) (hp : p.tables = .standard) (left : Expression Span) :
    Refines (Parse.call xs left) (fun n => Parse.call (ys n) left) p := by
  refine refines_advance.bind fun _ q hq _ _ => ?_
  refine (refines_closedList h (hq.trans hp) _).bind fun es _ _ _ _ => ?_
  exact refines_previousEnd (refines_pure _)

theorem refines_index (h : Simulates x y) (hp : p.tables = .standard) (left : Expression Span) :
    Refines (index x left) (fun n => index (y n) left) p := by
  refine refines_advance.bind fun _ q hq _ _ => refines_kind (refines_if (fun _ => ?_) fun _ => ?_)
  · exact refines_advance.bind fun _ _ _ _ _ => refines_previousEnd (refines_pure _)
  · refine (h q (hq.trans hp)).bind fun e _ _ _ _ => ?_
    exact (refines_expect _).bind fun _ _ _ _ _ => refines_previousEnd (refines_pure _)

theorem refines_refuseEntry (table : Tables → Kind → Option ρ) :
    Refines (refuseEntry table : Parse α) (fun _ => refuseEntry table) p :=
  refines_of_moves fun _ _ _ h => moves_throw _ _ _ _ h

end

/-- A sign aside, all that begins an expression is read alike. -/
theorem refines_leading {f : Power → Parse (Expression Span)}
    {g : Nat → Power → Parse (Expression Span)} {xs : Parse (List (Expression Span))}
    {ys : Nat → Parse (List (Expression Span))} (h : Simulates (f .loosest) fun n => g n .loosest)
    (hs : Simulates xs ys) (hp : p.tables = .standard) {rule : Leading} (hr : rule ≠ .negation) :
    Refines (leading f xs rule) (fun n => leading (g n) (ys n) rule) p := by
  cases rule with
  | atom => exact refines_of_moves (paired_atom calls_sound).1
  | negation => exact absurd rfl hr
  | grouping => exact refines_grouping h hp
  | arrayLiteral => exact refines_arrayLiteral hs hp

end ModuleSyntax.Proofs.Refinement
