import ModuleSyntax.Proofs.Symbols

namespace ModuleSyntax.Proofs.Running

open Parse Motion Symbols

variable {α β γ δ ρ : Type}

/-- With enough calls the parse gives a value that shows as `b` under `φ`, and leads to `q`. -/
def Runs (φ : α → β) (x : Nat → Parse α) (p : Parser) (b : β) (q : Parser) : Prop :=
  ∃ a, φ a = b ∧ ∃ n, ∀ m, n ≤ m → x m p = some (.ok a, q)

variable {φ : α → β} {ψ : γ → δ} {x y : Nat → Parse α} {p q r : Parser} {b : β}

theorem runs_pure {a : α} (h : φ a = b) : Runs φ (fun _ => (pure a : Parse α)) p b p :=
  ⟨a, h, 0, fun _ _ => rfl⟩

theorem Runs.bind {f : Nat → α → Parse γ} {d : δ} (hx : Runs φ x p b q)
    (hf : ∀ a, φ a = b → Runs ψ (fun n => f n a) q d r) :
    Runs ψ (fun n => x n >>= f n) p d r := by
  obtain ⟨a, ha, n, hn⟩ := hx
  obtain ⟨c, hc, m, hm⟩ := hf a ha
  refine ⟨c, hc, max n m, fun k hk => ?_⟩
  dsimp only
  rw [bind_apply, hn k (by omega)]
  exact hm k (by omega)

theorem Runs.call (h : Runs φ (fun n => x (n + 1)) p b q) : Runs φ x p b q := by
  obtain ⟨a, ha, n, hn⟩ := h
  refine ⟨a, ha, n + 1, fun m hm => ?_⟩
  obtain ⟨k, rfl⟩ := Nat.exists_eq_add_of_le' hm
  exact hn (k + n) (by omega)

theorem runs_kind {f : Nat → Kind → Parse α} (h : Runs φ (fun n => f n p.current.kind) p b q) :
    Runs φ (fun n => kind >>= f n) p b q := h

theorem runs_position {f : Nat → Position → Parse α} (h : Runs φ (fun n => f n p.position) p b q) :
    Runs φ (fun n => position >>= f n) p b q := h

theorem runs_previousEnd {f : Nat → Position → Parse α}
    (h : Runs φ (fun n => f n p.previousEnd) p b q) :
    Runs φ (fun n => previousEnd >>= f n) p b q := h

theorem runs_lookup {table : Tables → Kind → Option ρ} {f : Nat → Option ρ → Parse α}
    {entry : Option ρ} (ht : table p.tables p.current.kind = entry)
    (h : Runs φ (fun n => f n entry) p b q) : Runs φ (fun n => lookup table >>= f n) p b q := by
  subst ht
  exact h

theorem runs_if {c : Prop} [Decidable c] (hc : c) (h : Runs φ x p b q) :
    Runs φ (fun n => if c then x n else y n) p b q := by
  simpa only [if_pos hc] using h

theorem runs_else {c : Prop} [Decidable c] (hc : ¬ c) (h : Runs φ y p b q) :
    Runs φ (fun n => if c then x n else y n) p b q := by
  simpa only [if_neg hc] using h

def Spells (p : Parser) (ts : List Symbol) (q : Parser) : Prop :=
  ∃ us, Reads p us q ∧ us.map symbol = ts

theorem Spells.nil (h : Spells p [] q) : p = q := by
  obtain ⟨us, hr, hm⟩ := h
  rw [List.map_eq_nil_iff.1 hm] at hr
  cases hr
  rfl

theorem Spells.split {ts us : List Symbol} (h : Spells p (ts ++ us) r) :
    ∃ q, Spells p ts q ∧ Spells q us r := by
  obtain ⟨vs, hr, hm⟩ := h
  obtain ⟨as, bs, rfl, rfl, rfl⟩ := List.map_eq_append_iff.1 hm
  obtain ⟨q, ha, hb⟩ := hr.split
  exact ⟨q, ⟨as, ha, rfl⟩, ⟨bs, hb, rfl⟩⟩

theorem Spells.tables {ts : List Symbol} (h : Spells p ts q) : q.tables = p.tables := by
  obtain ⟨us, hr, -⟩ := h
  exact hr.tables

section

variable {s : Symbol} {ts : List Symbol} (h : Spells p (s :: ts) r)

include h

theorem Spells.head : symbol p.current = s := by
  obtain ⟨us, hr, hm⟩ := h
  cases hr with
  | refl => cases hm
  | step hp hr => exact (List.cons.inj hm).1

theorem Spells.kind : p.current.kind = s.1 := congrArg Prod.fst h.head

theorem Spells.advance : ∃ q, Runs symbol (fun _ => Parse.advance) p s q ∧ Spells q ts r := by
  have hs := h.head
  obtain ⟨us, hr, hm⟩ := h
  cases hr with
  | refl => cases hm
  | step hp hr =>
    exact ⟨_, ⟨_, hs, 0, fun _ _ => advance_of_ok hp⟩, ⟨_, hr, (List.cons.inj hm).2⟩⟩

theorem Spells.expectOneOf {kinds : List Kind} (hk : s.1 ∈ kinds) :
    ∃ q, Runs symbol (fun _ => Parse.expectOneOf kinds) p s q ∧ Spells q ts r := by
  obtain ⟨q, ⟨t, ht, n, hn⟩, hs⟩ := h.advance
  refine ⟨q, ⟨t, ht, n, fun m hm => ?_⟩, hs⟩
  exact (expectOneOf_of_mem (h.kind ▸ hk)).trans (hn m hm)

theorem Spells.expect {k : Kind} (hk : s.1 = k) :
    ∃ q, Runs symbol (fun _ => Parse.expect k) p s q ∧ Spells q ts r :=
  h.expectOneOf (List.mem_singleton.2 hk)

end

end ModuleSyntax.Proofs.Running
