import ModuleSyntax.Proofs.AnswersModule
import ModuleSyntax.Proofs.Calls

namespace ModuleSyntax.Proofs.Readings

open Parse Motion Answers AnswersExpression AnswersModule Calls PairedStatement

/-- The parser moves over a pair of brackets with nothing between. -/
inductive Pair : Parser → Token → Parser → Prop
  | mk {p : Parser} {closing next : Token} {s₁ s₂ : TokenStream}
      (ho : p.current.kind = .mark .openBracket) (hc : p.upcoming.pull = (.ok closing, s₁))
      (hk : closing.kind = .mark .closeBracket) (hn : s₁.pull = (.ok next, s₂)) :
      Pair p closing (moved (moved p closing s₁) next s₂)

/-- A name follows, behind empty pairs of brackets or at once. -/
inductive NameAhead : Parser → Prop
  | name {p : Parser} (hk : p.current.kind = .identifier) : NameAhead p
  | pair {p q : Parser} {closing : Token} (h : Pair p closing q) (hq : NameAhead q) : NameAhead p

/-- Behind the current token a name follows, and empty pairs of brackets between the two. -/
def Declares (p : Parser) : Prop :=
  ∃ next rest, p.upcoming.pull = (.ok next, rest) ∧ NameAhead (moved p next rest)

def evaluationFirst (n : Nat) : Parse (Statement Span) := do
  endEvaluation (← expression n .loosest)

variable {p q : Parser} {n depth : Nat} {name : String} {left : Expression Span} {closing : Token}
  {o : Except Diagnostic (Statement Span) × Parser}

theorem Pair.tables (h : Pair p closing q) : q.tables = p.tables := by
  cases h
  rfl

/-- A pair of brackets is read before it is known what it belongs to. -/
theorem Pair.afterName (h : Pair p closing q) :
    afterName (n + 1) name depth left p =
      afterName n name (depth + 1) (.emptyIndex left ⟨left.note.start, closing.span.stop⟩) q := by
  obtain ⟨ho, hc, hk, hn⟩ := h
  rename_i next s₁ s₂
  have hk' : (moved p closing s₁).current.kind = .mark .closeBracket := hk
  have hclose := advance_of_ok (p := moved p closing s₁) hn
  rw [Parse.afterName, kind_bind, if_pos ho, bind_of_ok (advance_of_ok hc), kind_bind, if_pos hk',
    bind_of_ok hclose]
  rfl

theorem Pair.typeChain (h : Pair p closing q) (hp : p.tables = .standard) (t : TypeRef Span) :
    typeChain (n + 1) t .loosest p =
      typeChain n ⟨t.base, t.depth + 1, t.note.start, closing.span.stop⟩ .loosest q := by
  obtain ⟨ho, hc, hk, hn⟩ := h
  rename_i next s₁ s₂
  have hopen : expect (.mark .openBracket) p = _ :=
    (expect_of_kind ho).trans (advance_of_ok hc)
  have hclose : expect (.mark .closeBracket) (moved p closing s₁) = _ :=
    (expect_of_kind hk).trans (advance_of_ok hn)
  have harray : arrayType t p = some (.ok ⟨t.base, t.depth + 1, t.note.start, closing.span.stop⟩,
      moved (moved p closing s₁) next s₂) := by
    rw [arrayType, bind_of_ok hopen, bind_of_ok hclose]
    rfl
  rw [typeChain_succ, lookup_bind, hp, ho]
  exact bind_of_ok harray

theorem Pair.chain (h : Pair p closing q) (hp : p.tables = .standard) :
    chain (n + 1) left .loosest p =
      chain n (.emptyIndex left ⟨left.note.start, closing.span.stop⟩) .loosest q := by
  obtain ⟨ho, hc, hk, hn⟩ := h
  rename_i next s₁ s₂
  have hk' : (moved p closing s₁).current.kind = .mark .closeBracket := hk
  have hclose := advance_of_ok (p := moved p closing s₁) hn
  have hindex : index (expression n .loosest) left p =
      some (.ok (.emptyIndex left ⟨left.note.start, closing.span.stop⟩),
        moved (moved p closing s₁) next s₂) := by
    rw [index, bind_of_ok (advance_of_ok hc), kind_bind, if_pos hk', bind_of_ok hclose]
    rfl
  rw [chain_succ, lookup_bind, hp, ho]
  exact bind_of_ok hindex

/-- Before a name, what has been read was a type. -/
theorem NameAhead.afterName (h : NameAhead p) (hp : p.tables = .standard) :
    afterName n name depth left p =
      (typeChain n ⟨.named name, depth, left.note⟩ .loosest >>= endDeclaration) p := by
  induction h generalizing n depth left with
  | @name p hk =>
    cases n with
    | zero => rfl
    | succ n =>
      have ht : typeChain (n + 1) ⟨.named name, depth, left.note⟩ .loosest p =
          some (.ok ⟨.named name, depth, left.note⟩, p) := by
        rw [typeChain_succ, lookup_bind, hp, hk]
        rfl
      rw [bind_of_ok ht, Parse.afterName, kind_bind, if_neg (by simp [hk]), kind_bind, if_pos hk]
  | @pair p q closing h hq ih =>
    cases n with
    | zero => rfl
    | succ n =>
      rw [h.afterName, ih (h.tables.trans hp), bind_apply, bind_apply, h.typeChain hp]
      rfl

/-- Before a name no operator goes on with an expression. -/
theorem NameAhead.chain (h : NameAhead p) (hp : p.tables = .standard) {e : Expression Span}
    (hx : chain n left .loosest p = some (.ok e, q)) : q.current.kind = .identifier := by
  induction h generalizing n left with
  | @name p hk =>
    cases n with
    | zero => cases hx
    | succ n =>
      rw [chain_succ, lookup_bind, hp, hk] at hx
      cases hx
      exact hk
  | @pair p q closing h hq ih =>
    cases n with
    | zero => cases hx
    | succ n =>
      rw [h.chain hp] at hx
      exact ih (h.tables.trans hp) hx

theorem afterName_index (hp : p.tables = .standard) (hk : p.current.kind = .mark .openBracket)
    (h : ∀ closing q, ¬ Pair p closing q) :
    afterName (n + 1) name depth left p = (chain (n + 1) left .loosest >>= endEvaluation) p := by
  have hchain : chain (n + 1) left .loosest p =
      (index (expression n .loosest) left >>= fun e => chain n e .loosest) p := by
    rw [chain_succ, lookup_bind, hp, hk]
    rfl
  rw [afterName, kind_bind, if_pos hk, bind_apply _ endEvaluation, hchain,
    ← bind_apply _ endEvaluation, bind_assoc, index, bind_assoc]
  obtain ⟨d, s₁, hpull⟩ | ⟨next, s₁, hpull⟩ := pull_cases p.upcoming
  · rw [bind_apply, bind_apply, advance_of_error hpull]
  · rw [bind_of_ok (advance_of_ok hpull), bind_of_ok (advance_of_ok hpull), kind_bind, bind_assoc,
      kind_bind]
    split
    · rename_i hc
      obtain ⟨d, s₂, hpull'⟩ | ⟨close, s₂, hpull'⟩ := pull_cases s₁
      · have hstuck : advance (moved p next s₁) = _ := advance_of_error hpull'
        rw [bind_apply, bind_apply, bind_apply, hstuck]
      · exact absurd (.mk hk hpull hc hpull') (h _ _)
    · simp only [bind_assoc, pure_bind]

theorem afterName_other (hk : p.current.kind ≠ .mark .openBracket)
    (hi : p.current.kind ≠ .identifier) :
    afterName (n + 1) name depth left p = (chain n left .loosest >>= endEvaluation) p := by
  rw [afterName, kind_bind, if_neg hk, kind_bind, if_neg hi]

/-- Before anything else than a name, what has been read was the beginning of an expression. The
induction is on the calls: each pair of brackets takes one, here as in an expression. -/
theorem afterName_evaluates (hp : p.tables = .standard) (h : ¬ NameAhead p) :
    (afterName n name depth left p = some o →
      (chain n left .loosest >>= endEvaluation) p = some o) ∧
    ((chain n left .loosest >>= endEvaluation) p = some o →
      afterName (n + 1) name depth left p = some o) := by
  induction n generalizing p depth left with
  | zero =>
    constructor
    · intro h
      cases h
    · intro h
      cases h
  | succ n ih =>
    have hmore (k : Nat) (hr : (chain k left .loosest >>= endEvaluation) p = some o) :
        (chain (k + 1) left .loosest >>= endEvaluation) p = some o :=
      bind_more (fun _ => chain_more (Nat.le_succ k)) hr
    -- a pair is read alike in both; without one the statement is settled here
    by_cases hpair : ∃ closing q, Pair p closing q
    · obtain ⟨closing, q, hq⟩ := hpair
      rw [hq.afterName, hq.afterName, bind_apply, hq.chain hp, ← bind_apply]
      exact ih (hq.tables.trans hp) fun hn => h (.pair hq hn)
    · have hpair' (closing : Token) (q : Parser) (hq : Pair p closing q) : False :=
        hpair ⟨closing, q, hq⟩
      by_cases hk : p.current.kind = .mark .openBracket
      · rw [afterName_index hp hk hpair', afterName_index hp hk hpair']
        exact ⟨id, hmore (n + 1)⟩
      · have hi : p.current.kind ≠ .identifier := fun hi => h (.name hi)
        rw [afterName_other hk hi, afterName_other hk hi]
        exact ⟨hmore n, id⟩

section

variable {next : Token} {rest : TokenStream}

theorem nameFirst_of_pull (hk : p.current.kind = .identifier)
    (h : p.upcoming.pull = (.ok next, rest)) :
    nameFirst n p = afterName n p.current.value 0 (.symbol p.current.value p.current.span)
      (moved p next rest) :=
  bind_of_ok ((expect_of_kind hk).trans (advance_of_ok h))

theorem typeRef_of_pull (hp : p.tables = .standard) (hk : p.current.kind = .identifier)
    (h : p.upcoming.pull = (.ok next, rest)) :
    typeRef n .loosest p =
      typeChain n ⟨.named p.current.value, 0, p.current.span⟩ .loosest (moved p next rest) := by
  have hname : expect .identifier p = _ := (expect_of_kind hk).trans (advance_of_ok h)
  have hnamed : namedType p =
      some (.ok ⟨.named p.current.value, 0, p.current.span⟩, moved p next rest) := by
    rw [namedType, bind_of_ok hname]
    rfl
  rw [typeRef_eq, lookup_bind, hp, hk]
  exact bind_of_ok hnamed

theorem expression_of_pull (hp : p.tables = .standard) (hk : p.current.kind = .identifier)
    (h : p.upcoming.pull = (.ok next, rest)) :
    expression (n + 1) .loosest p =
      chain n (.symbol p.current.value p.current.span) .loosest (moved p next rest) := by
  have hatom : atom p = some (.ok (.symbol p.current.value p.current.span), moved p next rest) := by
    rw [atom, bind_of_ok (advance_of_ok h), hk]
    rfl
  rw [expression_succ, lookup_bind, hp, hk]
  exact bind_of_ok hatom

end

theorem stuck_of_pull (hp : p.tables = .standard) (hk : p.current.kind = .identifier)
    {d : Diagnostic} {rest : TokenStream} (h : p.upcoming.pull = (.error d, rest)) :
    nameFirst n p = some (.error d, p) ∧ evaluationFirst (n + 1) p = some (.error d, p) := by
  have hstuck := advance_of_error h
  have hname : expect .identifier p = _ := (expect_of_kind hk).trans hstuck
  have hatom : atom p = some (.error d, p) := by rw [atom, bind_apply, hstuck]
  have hexpr : expression (n + 1) .loosest p = some (.error d, p) := by
    rw [expression_succ, lookup_bind, hp, hk]
    dsimp only [Tables.standard, leading]
    rw [bind_apply, hatom]
  exact ⟨by rw [nameFirst, bind_apply, hname], by rw [evaluationFirst, bind_apply, hexpr]⟩

theorem nameFirst_declares (hp : p.tables = .standard) (hk : p.current.kind = .identifier)
    (h : Declares p) : nameFirst n p = declarationFirst n p := by
  obtain ⟨next, rest, hpull, hnext⟩ := h
  rw [nameFirst_of_pull hk hpull, declarationFirst, bind_apply, typeRef_of_pull hp hk hpull,
    ← bind_apply]
  exact hnext.afterName hp

theorem nameFirst_evaluates (hp : p.tables = .standard) (hk : p.current.kind = .identifier)
    (h : ¬ Declares p) :
    (nameFirst n p = some o → evaluationFirst (n + 1) p = some o) ∧
      (evaluationFirst n p = some o → nameFirst n p = some o) := by
  obtain ⟨d, rest, hpull⟩ | ⟨next, rest, hpull⟩ := pull_cases p.upcoming
  · obtain ⟨hname, heval⟩ := stuck_of_pull (n := n) hp hk hpull
    rw [hname, heval]
    refine ⟨id, fun he => ?_⟩
    have hmore : evaluationFirst (n + 1) p = some o :=
      bind_more (fun _ => expression_more (Nat.le_succ n)) he
    rwa [heval] at hmore
  · have hnext : ¬ NameAhead (moved p next rest) := fun hn => h ⟨next, rest, hpull, hn⟩
    have heval (k : Nat) : evaluationFirst (k + 1) p =
        (chain k (.symbol p.current.value p.current.span) .loosest >>= endEvaluation)
          (moved p next rest) := by
      rw [evaluationFirst, bind_apply, expression_of_pull hp hk hpull, ← bind_apply]
    have ht : (moved p next rest).tables = .standard := hp
    rw [nameFirst_of_pull hk hpull, heval]
    refine ⟨(afterName_evaluates ht hnext).1, fun he => ?_⟩
    cases n with
    | zero => cases he
    | succ n =>
      rw [heval] at he
      exact (afterName_evaluates ht hnext).2 he

theorem not_declares_of_expression (hp : p.tables = .standard) (hk : p.current.kind = .identifier)
    {e : Expression Span} (hx : expression n .loosest p = some (.ok e, q))
    (hq : q.current.kind ≠ .identifier) : ¬ Declares p := by
  rintro ⟨next, rest, hpull, hnext⟩
  cases n with
  | zero => cases hx
  | succ n =>
    rw [expression_of_pull hp hk hpull] at hx
    exact hq (hnext.chain hp hx)

theorem nameFirst_more {m : Nat} (h : n ≤ m) (hr : nameFirst n p = some o) :
    nameFirst m p = some o :=
  more (paired_nameFirst calls_sound h) (fun _ _ => Notes.statement_inj shown_see) hr

theorem nameFirst_answers (hp : Proper p) (ht : p.tables = .standard)
    (hn : 3 * Answers.left p + 4 ≤ n) : ∃ o, nameFirst n p = some o := by
  have hready : Ready p := ⟨hp, by rw [ht]; rfl⟩
  have h : Returns p (nameFirst n) fun _ _ => True :=
    (returns_expect hready Kind.noConfusion).bind fun t q hq hl =>
      (returns_afterName hq (by omega) _ _ _).imp fun _ _ _ => trivial
  obtain ⟨r, q, hr, -⟩ := h
  exact ⟨(r, q), hr⟩

/-- A statement that begins with a name is a declaration if another name follows, with nothing but
empty pairs of brackets between the two. In every other case, errors of the reader among them, it
is an expression. Either way the result is the one that the reader of declarations or expressions
gives from the start, together with its spans or its refusal, and so is the place that is reached;
and there is one, with the calls that a run is allowed. -/
theorem nameFirst_reads (hp : p.tables = .standard) (hk : p.current.kind = .identifier) :
    (Declares p → ∀ n, nameFirst n p = declarationFirst n p) ∧
    (¬ Declares p → ∀ o, (∃ n, nameFirst n p = some o) ↔ ∃ n, evaluationFirst n p = some o) ∧
    (Proper p → ∃ o, ∀ n, p.budget ≤ n → nameFirst n p = some o ∧
      (Declares p → declarationFirst n p = some o) ∧
      (¬ Declares p → evaluationFirst n p = some o)) := by
  refine ⟨fun h n => nameFirst_declares hp hk h, fun h o => ⟨?_, ?_⟩, fun hproper => ?_⟩
  · rintro ⟨n, hn⟩
    exact ⟨n + 1, (nameFirst_evaluates hp hk h).1 hn⟩
  · rintro ⟨n, hn⟩
    exact ⟨n, (nameFirst_evaluates hp hk h).2 hn⟩
  · -- One call less than a run is allowed is enough, so that the expression may take one more.
    have hbudget := enough_budget p
    obtain ⟨o, ho⟩ := nameFirst_answers (n := p.budget - 1) hproper hp (by omega)
    refine ⟨o, fun n hn => ?_⟩
    obtain ⟨n, rfl⟩ := Nat.exists_eq_add_of_le' (show 1 ≤ n by omega)
    have hless : nameFirst n p = some o := nameFirst_more (by omega) ho
    have hname : nameFirst (n + 1) p = some o := nameFirst_more (Nat.le_succ n) hless
    refine ⟨hname, fun h => ?_, fun h => (nameFirst_evaluates hp hk h).1 hless⟩
    rw [← nameFirst_declares hp hk h]
    exact hname

def beforeArray (ts : List Token) : Parser where
  current := .onLine .identifier ⟨0, 0⟩ "a"
  upcoming := ⟨.onLine (.mark .openBracket) ⟨0, 1⟩ "[" ::
    .onLine (.mark .closeBracket) ⟨0, 2⟩ "]" :: ts, .ok (.eof ⟨0, 9⟩)⟩
  previousEnd := .start
  tables := .standard

theorem nameFirst_reads_array :
    let x := Token.onLine .identifier ⟨0, 4⟩ "x"
    let assign := Token.onLine (.mark .assignment) ⟨0, 6⟩ "="
    (∃ o, nameFirst (beforeArray [x]).budget (beforeArray [x]) = some o ∧
      declarationFirst (beforeArray [x]).budget (beforeArray [x]) = some o) ∧
    ∃ o, nameFirst (beforeArray [assign]).budget (beforeArray [assign]) = some o ∧
      evaluationFirst (beforeArray [assign]).budget (beforeArray [assign]) = some o := by
  intro x assign
  have hx : Declares (beforeArray [x]) :=
    ⟨_, _, rfl, .pair (.mk rfl rfl rfl rfl) (.name rfl)⟩
  have hassign : ¬ Declares (beforeArray [assign]) := by
    rintro ⟨next, rest, h, hn⟩
    cases h
    cases hn with
    | name hk => cases hk
    | pair h hn =>
      obtain ⟨ho, hc, hk, hn'⟩ := h
      cases hc
      cases hn'
      cases hn with
      | name hk => cases hk
      | pair h =>
        obtain ⟨ho, -, -, -⟩ := h
        cases ho
  have hproper (t : Token) (ht : t.kind ≠ .eof) : Proper (beforeArray [t]) := by
    constructor
    · simp [beforeArray, Token.onLine, ht]
    · intro u hu
      cases hu
      rfl
    · intro hk
      cases hk
  obtain ⟨-, -, hfirst⟩ := nameFirst_reads (p := beforeArray [x]) rfl rfl
  obtain ⟨o, ho⟩ := hfirst (hproper x Kind.noConfusion)
  obtain ⟨hname, hdecl, -⟩ := ho _ (Nat.le_refl _)
  obtain ⟨-, -, hsecond⟩ := nameFirst_reads (p := beforeArray [assign]) rfl rfl
  obtain ⟨o', ho'⟩ := hsecond (hproper assign Kind.noConfusion)
  obtain ⟨hname', -, heval⟩ := ho' _ (Nat.le_refl _)
  exact ⟨⟨o, hname, hdecl hx⟩, o', hname', heval hassign⟩

end ModuleSyntax.Proofs.Readings
