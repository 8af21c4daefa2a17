import ModuleSyntax.Proofs.Symbols

namespace ModuleSyntax.Proofs.Outcome

open Parse Motion Grammar Symbols

variable {α β : Type}

/-- Beginnings of sources that can be completed: what comes last in one may be left out. -/
structure Completable (V : List Symbol → Prop) : Prop where
  close {w c : List Symbol} (hc : ∀ s ∈ c, Spelled s) (h : V (w ++ c)) : V w

theorem completable_true : Completable fun _ => True := ⟨fun _ _ => trivial⟩

theorem Completable.behind {V : List Symbol → Prop} (hV : Completable V) (u : List Symbol) :
    Completable fun w => V (u ++ w) :=
  ⟨fun hc h => hV.close hc (by rwa [List.append_assoc])⟩

theorem Completable.typical {V : List Symbol → Prop} (hV : Completable V) {w : List Symbol}
    (ks : List Kind) (h : V (w ++ ks.map typical)) : V w := by
  refine hV.close (fun s hs => ?_) h
  obtain ⟨k, -, rfl⟩ := List.mem_map.1 hs
  exact spelled_typical k

def Allows (V : List Symbol → Prop) (N : List Symbol → α → Prop) : Prop := ∀ u a, N u a → V u

/-- The last of the tokens are an operand that nothing can be assigned to, where `V` allows any
expression. -/
def EndsInOperand (V : List Symbol → Prop) (u : List Token) : Prop :=
  ∃ v y left, u = v ++ y ∧ IsExpression tokens .equality y left ∧ ¬ Assignable left ∧
    ∀ w e, IsExpression symbols .assignment w e → V (v.map symbol ++ w)

/-- Why a run stops at `q` behind the tokens `u`: an error in the way of a token that may stand
there, a token that may not, or an assignment to something else than a target. -/
inductive Stuck (V : List Symbol → Prop) (u : List Token) (q : Parser) : Diagnostic → Prop
  | lexical {d : Diagnostic} {rest : TokenStream} (h : q.upcoming.pull = (.error d, rest))
      (hv : V (u.map symbol ++ [symbol q.current])) : Stuck V u q d
  | unexpected {expected : List Kind} (hn : expected ≠ []) (hk : q.current.kind ∉ expected)
      (hv : ∀ k ∈ expected, V (u.map symbol ++ [typical k])) :
      Stuck V u q (q.unexpected expected)
  | badTarget (hk : q.current.kind = .mark .assignment) (hv : V (u.map symbol))
      (ho : EndsInOperand V u) : Stuck V u q ⟨.badTarget q.current.value, q.position⟩

/-- From `o` the tokens `u` have been taken. Whatever the run takes after them, its result is in `T`
with all tokens since `o`, and it stops only where `V` allows. -/
def Meets (o : Parser) (u : List Token) (p : Parser) (x : Parse α) (V : List Symbol → Prop)
    (T : List Token → α → Parser → Prop) : Prop :=
  Reads o u p → ∀ r q, x p = some (r, q) → ∃ w, Reads o w q ∧
    match r with
    | .ok a => T w a q
    | .error d => Stuck V w q d

variable {o p : Parser} {u : List Token} {V : List Symbol → Prop}
  {S T : List Token → α → Parser → Prop} {U : List Token → β → Parser → Prop}

theorem meets_pure {a : α} (h : Reads o u p → T u a p) : Meets o u p (pure a) V T := by
  intro hr r q hx
  cases hx
  exact ⟨u, hr, h hr⟩

theorem meets_outOfCalls : Meets o u p (outOfCalls : Parse α) V T := by
  intro hr r q hx
  cases hx

theorem Meets.bind {x : Parse α} {f : α → Parse β} (hx : Meets o u p x V S)
    (hf : ∀ w a q, Reads o w q → S w a q → Meets o w q (f a) V U) : Meets o u p (x >>= f) V U := by
  intro hr r q h
  rw [bind_apply] at h
  split at h
  · cases h
  · rename_i hp
    cases h
    exact hx hr _ _ hp
  · rename_i a m hp
    obtain ⟨w, hw, hs⟩ := hx hr _ _ hp
    exact hf w a m hw hs hw _ _ h

theorem Meets.imp {x : Parse α} (hx : Meets o u p x V S)
    (h : ∀ w a q, Reads o w q → S w a q → T w a q) : Meets o u p x V T := by
  intro hr r q hp
  obtain ⟨w, hw, hs⟩ := hx hr _ _ hp
  refine ⟨w, hw, ?_⟩
  cases r with
  | error d => exact hs
  | ok a => exact h w a q hw hs

theorem EndsInOperand.behind {w : List Token}
    (h : EndsInOperand (fun w => V (u.map symbol ++ w)) w) : EndsInOperand V (u ++ w) := by
  obtain ⟨v, y, left, rfl, hy, hleft, hV⟩ := h
  refine ⟨u ++ v, y, left, (List.append_assoc u v y).symm, hy, hleft, fun x e he => ?_⟩
  rw [List.map_append, List.append_assoc]
  exact hV x e he

/-- What a parse does behind tokens that have been taken, it does wherever it begins. -/
theorem Meets.behind {x : Parse α} (hx : Meets p [] p x (fun w => V (u.map symbol ++ w)) S)
    (h : ∀ w a q, S w a q → T (u ++ w) a q) : Meets o u p x V T := by
  intro hr r q hp
  obtain ⟨w, hw, hs⟩ := hx (.refl p) _ _ hp
  refine ⟨u ++ w, hr.trans hw, ?_⟩
  cases r with
  | ok a => exact h w a q hs
  | error d =>
    cases hs with
    | lexical hd hv => exact .lexical hd (by rwa [List.map_append, List.append_assoc])
    | unexpected hn hk hv =>
      refine .unexpected hn hk fun k hm => ?_
      rw [List.map_append, List.append_assoc]
      exact hv k hm
    | badTarget hk hv ho => exact .badTarget hk (by rwa [List.map_append]) ho.behind

theorem meets_kind {f : Kind → Parse α} (h : Meets o u p (f p.current.kind) V T) :
    Meets o u p (kind >>= f) V T := h

theorem meets_position {f : Position → Parse α} (h : Meets o u p (f p.position) V T) :
    Meets o u p (position >>= f) V T := h

theorem meets_previousEnd {f : Position → Parse α} (h : Meets o u p (f p.previousEnd) V T) :
    Meets o u p (previousEnd >>= f) V T := h

theorem meets_lookup {ρ : Type} {table : Tables → Kind → Option ρ} {f : Option ρ → Parse α}
    (h : Meets o u p (f (table p.tables p.current.kind)) V T) :
    Meets o u p (lookup table >>= f) V T := h

theorem meets_advance (h : V (u.map symbol ++ [symbol p.current])) :
    Meets o u p advance V fun w t _ => w = u ++ [t] ∧ t = p.current := by
  intro hr r q hx
  cases hp : p.upcoming.pull with
  | mk e rest =>
    cases e with
    | error d =>
      rw [advance_of_error hp] at hx
      cases hx
      exact ⟨u, hr, .lexical hp h⟩
    | ok next =>
      rw [advance_of_ok hp] at hx
      cases hx
      exact ⟨u ++ [p.current], hr.trans (reads_one hp), rfl, rfl⟩

theorem meets_unexpected {expected : List Kind} (hn : expected ≠ [])
    (hk : p.current.kind ∉ expected) (hv : ∀ k ∈ expected, V (u.map symbol ++ [typical k])) :
    Meets o u p (unexpected expected : Parse α) V T := by
  intro hr r q hx
  cases hx
  exact ⟨u, hr, .unexpected hn hk hv⟩

theorem meets_refuseEntry {ρ : Type} {table : Tables → Kind → Option ρ}
    (hn : entries (table p.tables) ≠ []) (hk : table p.tables p.current.kind = none)
    (hv : ∀ k ∈ entries (table p.tables), V (u.map symbol ++ [typical k])) :
    Meets o u p (refuseEntry table : Parse α) V T := by
  intro hr r q hx
  cases hx
  refine ⟨u, hr, .unexpected hn (fun hm => ?_) hv⟩
  rw [mem_entries, hk] at hm
  cases hm

theorem meets_expectOneOf {kinds : List Kind} (hn : kinds ≠ [])
    (hv : ∀ s : Symbol, s.1 ∈ kinds → V (u.map symbol ++ [s])) :
    Meets o u p (expectOneOf kinds) V fun w t _ => w = u ++ [t] ∧ t.kind ∈ kinds := by
  by_cases h : p.current.kind ∈ kinds
  · intro hr r q hx
    rw [expectOneOf_of_mem h] at hx
    have ha := (meets_advance (o := o) (hv _ h)).imp
      (T := fun w t _ => w = u ++ [t] ∧ t.kind ∈ kinds) fun w t q _ hs => ⟨hs.1, hs.2 ▸ h⟩
    exact ha hr r q hx
  · intro hr r q hx
    rw [expectOneOf_of_not_mem h] at hx
    cases hx
    exact ⟨u, hr, .unexpected hn h fun k hk => hv (typical k) hk⟩

theorem meets_expect {k : Kind} (hv : ∀ s : Symbol, s.1 = k → V (u.map symbol ++ [s])) :
    Meets o u p (expect k) V fun w t _ => w = u ++ [t] ∧ t.kind = k := by
  refine (meets_expectOneOf (List.cons_ne_nil k []) fun s hs => hv s ?_).imp
    fun w t q _ hs => ⟨hs.1, ?_⟩
  · exact List.mem_singleton.1 hs
  · exact List.mem_singleton.1 hs.2

end ModuleSyntax.Proofs.Outcome
