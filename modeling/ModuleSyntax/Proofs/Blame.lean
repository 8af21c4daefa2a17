import ModuleSyntax.Proofs.Entry
import ModuleSyntax.Proofs.OutcomeModule
import ModuleSyntax.Proofs.Sessions

namespace ModuleSyntax.Proofs.Blame

open Parse Motion Grammar Symbols Levels Lexemes Entry Outcome OutcomeExpression OutcomeStatement
open OutcomeModule Sessions

/-- The operations that read one part of a module, and what such a part is made of. -/
inductive Part : Operation → (List Symbol → Prop) → Prop
  | module : Part .module fun w => ∃ m, IsModule symbols w m
  | importLine : Part .importLine fun w => ∃ i, IsImports symbols w [i]
  | declaration : Part .declaration fun w => ∃ d, IsDeclaration symbols w d
  | statement : Part .statement fun w => ∃ s, IsStatement symbols w s
  | block : Part .block fun w => ∃ ss, IsBlock symbols w ss
  | typeRef (power : Power) : Part (.typeRef power) fun w => ∃ t, IsType symbols w t
  | expression (power : Power) :
      Part (.expression power) fun w => ∃ e, IsExpression symbols (tighter power) w e

def Begins (N : List Symbol → Prop) (w : List Symbol) : Prop :=
  ∃ c, (∀ s ∈ c, Spelled s) ∧ N (w ++ c)

/-- The error is told for the current token, behind the tokens `w`. -/
structure Blames (N : List Symbol → Prop) (w : List Token) (q : Parser) (d : Diagnostic) :
    Prop where
  position : d.position = q.current.span.start
  cause : match d.cause with
    | .unexpected kind text expected => kind = q.current.kind ∧ text = q.current.value ∧
      expected ≠ [] ∧ (expected.Pairwise fun a b => a.rank < b.rank) ∧ kind ∉ expected
    | .badTarget text => text = q.current.value ∧ q.current.kind = .mark .assignment ∧
      EndsInOperand (Begins N) w
    | _ => False

variable {α : Type} {N : List Symbol → Prop} {o : Operation} {p q m : Parser} {w : List Token}
  {as : List Operation} {qs : List Parser} {d : Diagnostic} {l : Lexer}

theorem begins_of_part {v : List Symbol} (h : N v) : Begins N v :=
  ⟨[], fun _ hs => absurd hs List.not_mem_nil, by rwa [List.append_nil]⟩

theorem completable_begins : Completable (Begins N) where
  close hc h := by
    obtain ⟨z, hz, hN⟩ := h
    rw [List.append_assoc] at hN
    exact ⟨_, List.forall_mem_append.2 ⟨hc, hz⟩, hN⟩

theorem meets_map {β : Type} {V : List Symbol → Prop} {T : List Token → α → Parser → Prop}
    {x : Parse α} (h : Meets p [] p x V T) (f : α → β) :
    Meets p [] p (f <$> x) V fun _ _ _ => True := by
  rw [map_eq_pure_bind]
  exact h.bind fun _ _ _ _ _ => meets_pure fun _ => trivial

theorem meets_part (h : Part o N) (n : Nat) (hp : p.tables = .standard) :
    Meets p [] p (perform n o) (Begins N) fun _ _ _ => True := by
  have hV : Completable (Begins N) := completable_begins
  cases h with
  | module => exact meets_map (meets_wholeModule n hV hp fun w m hm => begins_of_part ⟨m, hm⟩) _
  | importLine =>
    refine meets_map (meets_importLine hV fun a b c ha hb hc => begins_of_part ?_) _
    exact ⟨_, IsImports.cons ha hb hc .nil⟩
  | declaration =>
    exact meets_map (meets_declaration n hV hp fun w d hd => begins_of_part ⟨d, hd⟩) _
  | statement =>
    exact meets_map ((meets_statements n).1 _ hV p hp fun w s hs => begins_of_part ⟨s, hs⟩) _
  | block =>
    exact meets_map (meets_block (meets_statements n).2 hV hp
      fun w ss hs => begins_of_part ⟨ss, hs⟩) _
  | typeRef power =>
    exact meets_map (meets_typeRef n power hV hp fun w t ht => begins_of_part ⟨t, ht⟩) _
  | expression power =>
    exact meets_map ((meets_expressions n).1 power _ hV p hp
      fun w e he => begins_of_part ⟨e, he⟩) _

theorem pairwise_all : Kind.all.Pairwise fun a b => a.rank < b.rank := by
  decide

theorem pairwise_listing (ks : List Kind) :
    (Kind.listing ks).Pairwise fun a b => a.rank < b.rank :=
  pairwise_all.filter _

theorem ending_of_session (hs : Session m as qs) :
    ∀ p ∈ m :: qs, p.upcoming.ending = m.upcoming.ending := by
  induction hs with
  | nil m => exact List.forall_mem_singleton.2 rfl
  | cons ha hs ih =>
    obtain ⟨ts, ht⟩ := ha.reads
    refine List.forall_mem_cons.2 ⟨rfl, fun p hp => ?_⟩
    exact (ih p hp).trans ht.ending

/-- A run that is stuck tells of the token that it is stuck at, unless it is the reader that
fails. -/
theorem blames_of_stuck (h : Stuck (Begins N) w q d) (hd : d.cause.phase = .syntactic)
    (hq : ∀ e, q.upcoming.ending = .error e → e.cause.phase = .lexical) : Blames N w q d := by
  cases h with
  | lexical hpull hv =>
    rw [hq d (pull_error hpull).2] at hd
    cases hd
  | @unexpected expected hn hk hv =>
    refine ⟨rfl, rfl, rfl, fun hnil => ?_, pairwise_listing expected, ?_⟩
    · obtain ⟨k, hm⟩ := List.exists_mem_of_ne_nil _ hn
      have hlisted := Kind.mem_listing.2 hm
      rw [hnil] at hlisted
      cases hlisted
    · rwa [Kind.mem_listing]
  | badTarget hk hv ho => exact ⟨rfl, rfl, hk, ho⟩

/-- Wherever a session with the tables of the language has come to, an operation that reads a part
of a module and is refused for its syntax stops at the token that it is told for, and does not take
that. There is always something that was expected in its place, listed in order, each kind once, and
never what is there. An assignment is refused at its sign, behind an operand that is no target. -/
theorem perform_blames (hl : Parser.start l.stream = .ok m) (hs : Session m as qs)
    (hp : p ∈ m :: qs) (ht : p.tables = .standard) (ho : Part o N)
    (hrun : Performs o p (.error d) q) (hd : d.cause.phase = .syntactic) :
    ∃ w, Reads p w q ∧ Blames N w q d := by
  obtain ⟨n, hrun⟩ := hrun
  obtain ⟨w, hr, hstuck⟩ := meets_part ho n ht (.refl p) _ _ hrun
  refine ⟨w, hr, blames_of_stuck hstuck hd fun e he => ?_⟩
  rw [hr.ending, ending_of_session hs p hp, (start_ahead hl).1] at he
  exact (sourced_stream l).lexical e he

def beforeSum : Parser where
  current := .onLine .identifier ⟨0, 2⟩ "a"
  upcoming := ⟨[.onLine (.mark .plus) ⟨0, 4⟩ "+", .onLine .intLiteral ⟨0, 6⟩ "1",
    .onLine (.mark .assignment) ⟨0, 8⟩ "=", .onLine .intLiteral ⟨0, 10⟩ "2"], .ok (.eof ⟨0, 11⟩)⟩
  previousEnd := ⟨0, 1⟩
  tables := .standard

def beforeSemicolon : Parser where
  current := .onLine (.mark .semicolon) ⟨0, 0⟩ ";"
  upcoming := ⟨beforeSum.current :: beforeSum.upcoming.tokens, .ok (.eof ⟨0, 11⟩)⟩
  previousEnd := .start
  tables := .standard

theorem perform_blames_sum : ∃ q w left,
    Parser.start (Lexer.ofString "; a + 1 = 2" none).stream = .ok beforeSemicolon ∧
    Session beforeSemicolon [.advance] [beforeSum] ∧
    Performs (.expression .loosest) beforeSum (.error ⟨.badTarget "=", ⟨0, 8⟩⟩) q ∧
    Reads beforeSum w q ∧ q.current = .onLine (.mark .assignment) ⟨0, 8⟩ "=" ∧
    (∃ y, y <:+ w ∧ IsExpression tokens .equality y left) ∧ ¬ Assignable left := by
  have hl : Parser.start (Lexer.ofString "; a + 1 = 2" none).stream = .ok beforeSemicolon :=
    rfl
  have hs : Session beforeSemicolon [.advance] [beforeSum] := .cons ⟨0, rfl⟩ (.nil _)
  have hrun : Performs (.expression .loosest) beforeSum (.error ⟨.badTarget "=", ⟨0, 8⟩⟩) _ :=
    ⟨5, rfl⟩
  obtain ⟨w, hr, hb⟩ := perform_blames hl hs (List.mem_cons_of_mem _ List.mem_cons_self) rfl
    (.expression .loosest) hrun rfl
  obtain ⟨-, -, v, y, left, rfl, hy, hleft, -⟩ := hb.cause
  exact ⟨_, _, left, hl, hs, hrun, hr, rfl, ⟨y, List.suffix_append v y, hy⟩, hleft⟩

end ModuleSyntax.Proofs.Blame
