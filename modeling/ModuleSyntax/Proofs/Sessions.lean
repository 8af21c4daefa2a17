import Mathlib.Data.List.Forall2
import ModuleSyntax.Proofs.PairedOperation
import ModuleSyntax.Proofs.Supply

namespace ModuleSyntax.Proofs.Sessions

open Parse Motion PairedRuns Calls PairedOperation Steps Supply

/-- The operation returns, with some depth of calls. -/
def Performs (a : Operation) (p : Parser) (r : Except Diagnostic Reply) (q : Parser) : Prop :=
  ∃ n, perform n a p = some (r, q)

/-- Operations that return, one after another, and the parser after each of them. -/
inductive Session : Parser → List Operation → List Parser → Prop
  | nil (p : Parser) : Session p [] []
  | cons {p q : Parser} {a : Operation} {r : Except Diagnostic Reply} {as : List Operation}
      {qs : List Parser} (h : Performs a p r q) (hs : Session q as qs) :
      Session p (a :: as) (q :: qs)

/-- A parser that started as `o` has taken the tokens of the list, which are the first that the
reader gives, is at the next one, and knows where the last of them ends. -/
structure Stands (l : Lexer) (o : Parser) (ts : List Token) (p : Parser) : Prop where
  reads : Reads o ts { p with tables := o.tables }
  taken : ts.map .ok = (List.range ts.length).map (answer l)
  current : answer l ts.length = .ok p.current
  previousEnd : p.previousEnd = (ts.getLast?.map fun t => t.span.stop).getD .start

/-- The operation does the same whatever comes after the current token. -/
def Idle (a : Operation) (p : Parser) (r : Except Diagnostic Reply) (q : Parser) : Prop :=
  ∀ s, Performs a { p with upcoming := s } r { q with upcoming := s }

/-- However the session goes on, the parser keeps its place and the error is in the way of the next
token: for `advance`, and for every operation that comes to ask for it. -/
def Blocked (d : Diagnostic) (p : Parser) : Prop :=
  ∀ as qs, Session p as qs → ∀ q ∈ p :: qs,
    q.current = p.current ∧ q.previousEnd = p.previousEnd ∧ advance q = some (.error d, q) ∧
      ∀ a r q', Performs a q r q' → r = .error d ∨ Idle a q r q'

variable {l : Lexer} {o p q : Parser} {a : Operation} {as : List Operation} {qs : List Parser}
  {ts us : List Token} {d : Diagnostic} {r : Except Diagnostic Reply}

theorem Performs.reads (h : Performs a p r q) :
    ∃ ts, Reads p ts { q with tables := p.tables } := by
  obtain ⟨n, h⟩ := h
  obtain hchange | ⟨-, hpaired⟩ := perform_cases a
  · rw [hchange] at h
    cases h
    exact ⟨[], .refl p⟩
  · obtain ⟨ts, ht⟩ := (hpaired calls calls_sound rfl (Nat.le_refl n)).1 p r q h
    rw [← ht.tables]
    exact ⟨ts, ht⟩

theorem stands_of_reads (hl : Parser.start l.stream = .ok o)
    (h : Reads o ts { p with tables := o.tables }) : Stands l o ts p := by
  obtain ⟨ha, ht⟩ := (ahead_of_start hl).reads h
  refine ⟨h, ht, ha.current, ?_⟩
  rw [← start_previousEnd hl]
  exact h.previousEnd

theorem Stands.performs (hl : Parser.start l.stream = .ok o) (hp : Stands l o ts p)
    (h : Performs a p r q) : ∃ us, Stands l o (ts ++ us) q := by
  obtain ⟨us, hu⟩ := h.reads
  exact ⟨us, stands_of_reads hl (hp.reads.trans (hu.retable o.tables))⟩

theorem Session.stands (hl : Parser.start l.stream = .ok o) (h : Session p as qs)
    (hp : Stands l o ts p) :
    ∃ tss, (ts :: tss).Pairwise (· <+: ·) ∧ List.Forall₂ (Stands l o) tss qs := by
  induction h generalizing ts with
  | nil p => exact ⟨[], List.pairwise_singleton _ ts, .nil⟩
  | cons ha hs ih =>
    obtain ⟨us, hq⟩ := hp.performs hl ha
    obtain ⟨tss, hprefix, hstands⟩ := ih hq
    refine ⟨(ts ++ us) :: tss, ?_, .cons hq hstands⟩
    rw [List.pairwise_cons]
    refine ⟨fun vs hv => ?_, hprefix⟩
    obtain rfl | hv := List.mem_cons.1 hv
    · exact List.prefix_append ts us
    · exact (List.prefix_append ts us).trans (List.rel_of_pairwise_cons hprefix hv)

theorem Stands.pull (hl : Parser.start l.stream = .ok o) (h : Stands l o ts p) :
    p.upcoming.pull.1 = answer l (ts.length + 1) := by
  obtain ⟨ha, -⟩ := (ahead_of_start hl).reads h.reads
  have hu : p.upcoming = (after ts.length l).next.2.stream := ha.upcoming
  rw [hu, pull_stream, answer, after_succ]

/-- Two runs, of which the first has an error in the way of the next token. -/
def blockage (d : Diagnostic) (s : TokenStream) : Pairing Position where
  view i := i
  sync p q := p.upcoming.pull.1 = .error d ∧ q = { p with upcoming := s }
  fails e f := e = f
  gone _ := False
  lost e := e = d

theorem blockage_sound (d : Diagnostic) (s : TokenStream) : Sound (blockage d s) where
  current h := h.2 ▸ rfl
  previousEnd h := h.2 ▸ rfl
  leading h := h.2 ▸ rfl
  trailing h := h.2 ▸ rfl
  opening h := h.2 ▸ rfl
  typeLeading h := h.2 ▸ rfl
  typeTrailing h := h.2 ▸ rfl
  starts h := h.2 ▸ rfl
  typeStarts h := h.2 ▸ rfl
  fails := calls_sound.fails
  advance := by
    rintro p q ⟨hp, -⟩
    rw [advance_of_error (Prod.ext hp rfl)]
    exact .lost _ rfl
  gone h := h.elim

/-- An operation that comes to ask for the next token is told of the error in the way. -/
theorem Performs.idle (hp : p.upcoming.pull.1 = .error d) (h : Performs a p r q) :
    r = .error d ∨ Idle a p r q := by
  obtain ⟨n, hrun⟩ := h
  obtain hchange | ⟨-, hpaired⟩ := perform_cases a
  · rw [hchange] at hrun
    cases hrun
    exact .inr fun s => ⟨n, by rw [hchange]; rfl⟩
  · by_cases hr : r = .error d
    · exact .inl hr
    · -- in the pairing only a run that asks for the next token is lost
      refine .inr fun s => ⟨n, ?_⟩
      have hf := (hpaired _ (blockage_sound d s) rfl (Nat.le_refl n)).2 p { p with upcoming := s }
        ⟨hp, rfl⟩
      rw [hrun] at hf
      generalize perform n a { p with upcoming := s } = out at hf ⊢
      cases hf with
      | gone _ hg => exact hg.elim
      | lost _ hl => exact absurd (congrArg _ hl) hr
      | value ha hs =>
        obtain ⟨-, rfl⟩ := hs
        cases ha
        rfl
      | refusal hd hs =>
        obtain ⟨-, rfl⟩ := hs
        cases hd
        rfl

/-- Where an error is in the way of the next token, an operation can only change tables. -/
theorem Performs.stays (hp : p.upcoming.pull.1 = .error d) (h : Performs a p r q) :
    q = { p with tables := q.tables } := by
  obtain ⟨ts, ht⟩ := h.reads
  generalize hm : ({ q with tables := p.tables } : Parser) = m at ht
  cases ht with
  | refl p => exact congrArg (fun m : Parser => { m with tables := q.tables }) hm
  | step hpull =>
    rw [hpull] at hp
    cases hp

theorem Session.stays (hp : p.upcoming.pull.1 = .error d) (h : Session p as qs) :
    ∀ q ∈ p :: qs, q = { p with tables := q.tables } := by
  induction h with
  | nil p =>
    intro q hq
    rw [List.mem_singleton.1 hq]
  | @cons p m a r as qs ha hs ih =>
    have hm := ha.stays hp
    intro q hq
    obtain rfl | hq := List.mem_cons.1 hq
    · rfl
    · have hmp : m.upcoming.pull.1 = .error d := by rwa [hm]
      rw [ih hmp q hq, hm]

theorem blocked_of_pull (hp : p.upcoming.pull.1 = .error d) : Blocked d p := by
  intro as qs h q hq
  have hs := h.stays hp q hq
  have hqp : q.upcoming.pull.1 = .error d := by rwa [hs]
  refine ⟨by rw [hs], by rw [hs], advance_of_error (Prod.ext hqp rfl), ?_⟩
  intro a r q' ha
  exact ha.idle hqp

theorem advance_error_iff :
    (∃ q, advance p = some (.error d, q)) ↔ p.upcoming.pull.1 = .error d := by
  constructor
  · rintro ⟨q, h⟩
    rw [advance_apply] at h
    split at h
    · cases h
    · rename_i hpull
      cases h
      rw [hpull]
  · intro h
    exact ⟨p, advance_of_error (Prod.ext h rfl)⟩

theorem advance_of_expectOneOf {ks : List Kind} {t : Token}
    (h : expectOneOf ks p = some (.ok t, q)) : advance p = some (.ok t, q) := by
  by_cases hk : p.current.kind ∈ ks
  · rwa [← expectOneOf_of_mem hk]
  · rw [expectOneOf_of_not_mem hk] at h
    cases h

/-- Only operations that advance give a token. -/
theorem Performs.advance {t : Token} (h : Performs a p (.ok (.token t)) q) :
    advance p = some (.ok t, q) := by
  obtain ⟨n, h⟩ := h
  cases a with
  | setLeading | setTrailing | setOpening | setTypeLeading | setTypeTrailing | unexpected => cases h
  | advance =>
    obtain ⟨u, h, hu⟩ := ok_of_map h
    cases hu
    exact h
  | expect | expectOneOf =>
    obtain ⟨u, h, hu⟩ := ok_of_map h
    cases hu
    exact advance_of_expectOneOf h
  | _ =>
    obtain ⟨u, -, hu⟩ := ok_of_map h
    cases hu

theorem Stands.gives (hl : Parser.start l.stream = .ok o) (hp : Stands l o ts p) {t : Token}
    (h : Performs a p (.ok (.token t)) q) :
    answer l ts.length = .ok t ∧ Stands l o (ts ++ [t]) q := by
  obtain ⟨rfl, next, rest, hpull, rfl⟩ := moved_of_advance h.advance
  exact ⟨hp.current, stands_of_reads hl (hp.reads.trans ((reads_one hpull).retable o.tables))⟩

/-- In every session the parser has taken the first tokens of the source, never fewer than before,
and is at the next one. That one is what an operation gives that gives a token, and the parser moves
on to the next. A token that is not expected changes nothing, and an error of the reader stays in
the way for the rest of the session. -/
theorem session_stands (hl : Parser.start l.stream = .ok o) (h : Session o as qs) :
    (∃ tss, ([] :: tss).Pairwise (· <+: ·) ∧
      List.Forall₂ (Stands l o) ([] :: tss) (o :: qs)) ∧
    (∀ n m, n ≤ m → Final (answer l n) → answer l m = answer l n) ∧
    ∀ q ∈ o :: qs,
      (∀ ks, q.current.kind ∉ ks → expectOneOf ks q = some (.error (q.unexpected ks), q)) ∧
      (∀ k, q.current.kind ≠ k → expect k q = some (.error (q.unexpected [k]), q)) ∧
      ∀ ts, Stands l o ts q →
        (∀ a t r, Performs a q (.ok (.token t)) r →
          answer l ts.length = .ok t ∧ Stands l o (ts ++ [t]) r) ∧
        ∀ d, ((∃ q', advance q = some (.error d, q')) ↔ answer l (ts.length + 1) = .error d) ∧
          (answer l (ts.length + 1) = .error d → Blocked d q) := by
  have ho : Stands l o [] o := stands_of_reads hl (.refl o)
  obtain ⟨tss, hprefix, hstands⟩ := h.stands hl ho
  refine ⟨⟨tss, hprefix, .cons ho hstands⟩, fun n m hm hf => answer_final hf hm, ?_⟩
  intro q _
  refine ⟨fun ks hk => expectOneOf_of_not_mem hk, fun k hk => ?_,
    fun ts hq => ⟨fun a t r ha => hq.gives hl ha, fun d => ⟨?_, ?_⟩⟩⟩
  · exact expectOneOf_of_not_mem fun h => hk (List.mem_singleton.1 h)
  · rw [← hq.pull hl]
    exact advance_error_iff
  · intro h
    exact blocked_of_pull (by rw [hq.pull hl, h])

def numberError : Diagnostic := ⟨.malformedNumber "1x", ⟨0, 6⟩⟩

def beforeSum : Parser where
  current := .onLine .identifier ⟨0, 0⟩ "a"
  upcoming := ⟨[.onLine (.mark .plus) ⟨0, 2⟩ "+", .onLine .identifier ⟨0, 4⟩ "b"],
    .error numberError⟩
  previousEnd := .start
  tables := .standard

/-- Commas go on with an expression like brackets. -/
def withCommas : Tables := retabled (.setTrailing (.mark .comma) .call .index) .standard

def beforePlus : Parser where
  current := .onLine (.mark .plus) ⟨0, 2⟩ "+"
  upcoming := ⟨[.onLine .identifier ⟨0, 4⟩ "b"], .error numberError⟩
  previousEnd := ⟨0, 1⟩
  tables := withCommas

def beforeNumber : Parser where
  current := .onLine .identifier ⟨0, 4⟩ "b"
  upcoming := ⟨[], .error numberError⟩
  previousEnd := ⟨0, 3⟩
  tables := withCommas

def asked : List Operation :=
  [.setTrailing (.mark .comma) .call .index, .advance, .expect (.mark .plus),
    .expression .loosest, .advance]

/-- The error is in the way of `b`, which is never taken. -/
def reached : List Parser :=
  [{ beforeSum with tables := withCommas }, beforePlus, beforeNumber, beforeNumber, beforeNumber]

theorem session_stands_number :
    Parser.start (Lexer.ofString "a + b 1x" none).stream = .ok beforeSum ∧
      Session beforeSum asked reached ∧
      Stands (Lexer.ofString "a + b 1x" none) beforeSum [beforeSum.current, beforePlus.current]
        beforeNumber ∧
      Blocked numberError beforeNumber := by
  have hl : Parser.start (Lexer.ofString "a + b 1x" none).stream = .ok beforeSum := rfl
  have hname : Performs .advance { beforeSum with tables := withCommas }
    (.ok (.token beforeSum.current)) beforePlus := ⟨0, rfl⟩
  have hplus : Performs (.expect (.mark .plus)) beforePlus
    (.ok (.token beforePlus.current)) beforeNumber := ⟨0, rfl⟩
  have hs : Session beforeSum asked reached :=
    .cons ⟨0, rfl⟩ (.cons hname (.cons hplus (.cons ⟨1, rfl⟩ (.cons ⟨0, rfl⟩ (.nil _)))))
  obtain ⟨-, -, hplaces⟩ := session_stands hl hs
  simp only [reached, List.forall_mem_cons] at hplaces
  obtain ⟨-, hfirst, hsecond, hthird, -⟩ := hplaces
  have hstart : Stands _ beforeSum [] { beforeSum with tables := withCommas } :=
    stands_of_reads hl (.refl beforeSum)
  have hmiddle := ((hfirst.2.2 [] hstart).1 _ _ _ hname).2
  have hlast := ((hsecond.2.2 _ hmiddle).1 _ _ _ hplus).2
  exact ⟨hl, hs, hlast, ((hthird.2.2 _ hlast).2 numberError).2 rfl⟩

end ModuleSyntax.Proofs.Sessions
