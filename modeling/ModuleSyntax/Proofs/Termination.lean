import ModuleSyntax.Proofs.Acceptance
import ModuleSyntax.Proofs.Sessions

namespace ModuleSyntax.Proofs.Termination

open Parse Motion Answers AnswersExpression AnswersModule Calls PairedOperation Acceptance Lexemes
open Sessions

variable {l : Lexer} {o p q : Parser} {a : Operation} {as : List Operation} {qs : List Parser}
  {r : Except Diagnostic Reply} {n m : Nat}

/-- A depth of calls that is enough for whatever a parser is asked for. Every round of a loop is a
call of its own, and what is counted are the tokens before the end or the first error. -/
def depth (p : Parser) : Nat := 3 * left p + 5

/-- Where no expression begins at the end, every operation returns. -/
theorem perform_returns (hp : Ready p) (a : Operation) (hn : depth p ≤ n) :
    ∃ r q, perform n a p = some (r, q) := by
  have hexpressions := returns_expressions n (left p)
  have hstatements := returns_statements n (left p)
  unfold depth at hn
  have hexpr : ∀ power, Within (left p) (expression n power) := hexpressions.1 (by omega)
  have hitems : Within (left p) (items n) := hexpressions.2.2 (by omega)
  have hbody : ∀ q, Ready q → left q < left p →
      Returns q (statements n) fun _ r => left r ≤ left q := fun q hq hl =>
    hstatements.2 (by omega) q hq (Nat.le_of_lt hl)
  have hw := Nat.le_refl (left p)
  cases a with
  | setLeading | setTrailing | setOpening | setTypeLeading | setTypeTrailing | unexpected =>
    exact ⟨_, _, rfl⟩
  | advance => exact (returns_advance hp).map _
  | expect k => exact (returns_expectAny hp [k]).map _
  | expectOneOf ks => exact (returns_expectAny hp ks).map _
  | module => exact (returns_wholeModule hp hn).map _
  | importLine => exact (returns_importLine hp).map _
  | declaration => exact (returns_declaration (n := n) hp (by omega)).map _
  | statement => exact (hstatements.1 (by omega) p hp hw).map _
  | block => exact (returns_block hp hbody).map _
  | opening rule =>
    refine (returns_opening (n := n) hp (by omega) (fun q hq hl => ?_) hbody rule).map _
    exact hstatements.1 (by omega) q hq (Nat.le_of_lt hl)
  | typeRef power =>
    exact (within_typeRef (n := n) (w := left p) (by omega) power p hp hw).map _
  | typeLeading rule => exact (returns_typeLeading hp rule).map _
  | typeTrailing rule t =>
    cases rule with
    | array => exact (returns_arrayType hp t).map _
  | expression power => exact (hexpr power p hp hw).map _
  | chain e power => exact (hexpressions.2.1 (by omega) e power p hp hw).map _
  | leading rule => exact (returns_leading hp hexpr hitems (by omega) rule).map _
  | trailing rule e power =>
    exact (returns_trailing hp hexpr hitems (by omega) rule e power).map _

theorem perform_more (h : n ≤ m) {out : Except Diagnostic Reply × Parser}
    (hr : perform n a p = some out) : perform m a p = some out := by
  obtain hchange | ⟨-, hpaired⟩ := perform_cases a
  · rwa [hchange, ← hchange n]
  · exact more (hpaired calls calls_sound rfl h) (fun _ _ hab => hab) hr

/-- The calls that a run is allowed are enough for whatever an operation returns. -/
theorem run_of_performs (hp : Ready p) (h : Performs a p r q) : a.run p = some (r, q) := by
  obtain ⟨n, hr⟩ := h
  obtain ⟨r', q', hrun⟩ := perform_returns hp a (enough_budget p)
  have hmax := perform_more (Nat.le_max_left n p.budget) hr
  rw [perform_more (Nat.le_max_right n p.budget) hrun] at hmax
  rw [Operation.run, budgeted_apply, hrun, hmax]

theorem Performs.tables (h : Performs a p r q) : q.tables = retabled a p.tables := by
  obtain ⟨n, hr⟩ := h
  obtain hchange | ⟨hid, hpaired⟩ := perform_cases a
  · rw [hchange] at hr
    cases hr
    rfl
  · obtain ⟨ts, ht⟩ := (hpaired calls calls_sound rfl (Nat.le_refl n)).1 p r q hr
    rw [ht.tables, hid]
    rfl

/-- An operation that lets no expression begin at the end. -/
def Sparing (a : Operation) : Prop := ∀ rule, a ≠ .setLeading .eof rule

theorem Sparing.leading (h : Sparing a) (t : Tables) :
    (retabled a t).leading .eof = t.leading .eof := by
  cases a with
  | setLeading k rule => exact setEntry_of_ne fun hk => h rule (by rw [hk])
  | _ => rfl

theorem Performs.ready (h : Performs a p r q) (ha : Sparing a) (hp : Ready p) : Ready q := by
  obtain ⟨ts, ht⟩ := h.reads
  obtain ⟨htokens, hending, hcurrent⟩ := hp.toProper.reads ht
  refine ⟨⟨htokens, hending, hcurrent⟩, ?_⟩
  rw [Performs.tables h, ha.leading]
  exact hp.leading

theorem session_ready (h : Session p as qs) (ha : ∀ a ∈ as, Sparing a) (hp : Ready p) :
    ∀ q ∈ p :: qs, Ready q := by
  induction h with
  | nil p =>
    intro q hq
    rwa [List.mem_singleton.1 hq]
  | cons h hs ih =>
    obtain ⟨hfirst, hrest⟩ := List.forall_mem_cons.1 ha
    exact List.forall_mem_cons.2 ⟨hp, ih hrest (Performs.ready h hfirst hp)⟩

theorem session_of_ready (as : List Operation) (ha : ∀ a ∈ as, Sparing a) (hp : Ready p) :
    ∃ qs, Session p as qs := by
  induction as generalizing p with
  | nil => exact ⟨[], .nil p⟩
  | cons a as ih =>
    obtain ⟨hfirst, hrest⟩ := List.forall_mem_cons.1 ha
    obtain ⟨r, q, hr⟩ := perform_returns hp a (Nat.le_refl _)
    have hq : Performs a p r q := ⟨_, hr⟩
    obtain ⟨qs, hs⟩ := ih hrest (Performs.ready hq hfirst hp)
    exact ⟨q :: qs, .cons hq hs⟩

/-- Whatever tables a session sets up, if it lets no expression begin at the end, it can be carried
through, and at every place of it every operation returns. With the depth of calls that the tokens
ahead ask for there is one result, the same with more calls and with fewer if these give one at all,
and it is the result of a run. Every source is accepted or refused. -/
theorem operations_return (hl : Parser.start l.stream = .ok o) (ha : ∀ a ∈ as, Sparing a) :
    (∃ qs, Session o as qs) ∧
    (∀ qs, Session o as qs → ∀ q ∈ o :: qs, ∀ a, ∃ out,
      (∀ n, depth q ≤ n → perform n a q = some out) ∧
      (∀ n out', perform n a q = some out' → out' = out) ∧ a.run q = some out) ∧
    ∀ source file, ∃ r, parseSource source file = some r := by
  have ho : Ready o := start_ready (sourced_stream l) hl
  refine ⟨session_of_ready as ha ho, fun qs hs q hq a => ?_, parseSource_answers⟩
  obtain ⟨r, q', hr⟩ := perform_returns (session_ready hs ha ho q hq) a (Nat.le_refl _)
  have hmore : ∀ n, depth q ≤ n → perform n a q = some (r, q') := fun n hn => perform_more hn hr
  refine ⟨(r, q'), hmore, fun n out hout => ?_, ?_⟩
  · have hmax := perform_more (Nat.le_max_left n (depth q)) hout
    rw [hmore _ (Nat.le_max_right _ _)] at hmax
    exact (Option.some.inj hmax).symm
  · rw [Operation.run, budgeted_apply]
    exact hmore _ (enough_budget q)

def beforeName : Parser where
  current := .onLine .identifier ⟨0, 0⟩ "x"
  upcoming := ⟨[], .ok (.eof ⟨0, 1⟩)⟩
  previousEnd := .start
  tables := .standard

/-- Loops and indices that begin at the end of the source, and a way there. -/
def foreign : List Operation :=
  [.setOpening .eof .whileLoop, .setTrailing .eof .call .index, .expression .loosest, .advance]

theorem operations_return_foreign :
    Parser.start (Lexer.ofString "x" none).stream = .ok beforeName ∧
      (∀ a ∈ foreign, Sparing a) ∧
      ∃ qs, Session beforeName foreign qs ∧ ∀ q ∈ beforeName :: qs,
        ∃ out, perform (depth q) .statement q = some out ∧
          Operation.run .statement q = some out := by
  have hl : Parser.start (Lexer.ofString "x" none).stream = .ok beforeName := rfl
  have ha : ∀ a ∈ foreign, Sparing a := by simp [foreign, Sparing]
  obtain ⟨⟨qs, hs⟩, hreturns, -⟩ := operations_return hl ha
  refine ⟨hl, ha, qs, hs, fun q hq => ?_⟩
  obtain ⟨out, hdepth, -, hrun⟩ := hreturns qs hs q hq .statement
  exact ⟨out, hdepth _ (Nat.le_refl _), hrun⟩

end ModuleSyntax.Proofs.Termination
