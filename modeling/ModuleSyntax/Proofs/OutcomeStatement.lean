import ModuleSyntax.Parse.Statement
import ModuleSyntax.Proofs.OutcomeExpression

namespace ModuleSyntax.Proofs.OutcomeStatement

open Parse Motion Grammar Symbols Levels Outcome OutcomeExpression

variable {τ α : Type} {g : Terminals τ α}

theorem type_note {ts : List τ} {t : TypeRef α} (h : IsType g ts t) : t.note = g.note ts := by
  cases h <;> rfl

theorem type_ne_nil {ts : List τ} {t : TypeRef α} (h : IsType g ts t) : ts ≠ [] := by
  cases h <;> simp

theorem typeLeading_standard {k : Kind} {rule : TypeLeading}
    (h : Tables.standard.typeLeading k = some rule) :
    match rule with
    | .primitive => ∃ p : Primitive, k = .keyword p.keyword
    | .named => k = .identifier := by
  unfold Tables.standard at h
  dsimp only at h
  split at h <;> cases h
  · exact ⟨.void, rfl⟩
  · exact ⟨.int, rfl⟩
  · exact ⟨.boolean, rfl⟩
  · exact ⟨.string, rfl⟩
  · rfl

theorem typeTrailing_standard {k : Kind} {held : Power} {rule : TypeTrailing}
    (h : Tables.standard.typeTrailing k = some (held, rule)) : k = .mark .openBracket := by
  unfold Tables.standard at h
  dsimp only at h
  split at h <;> cases h
  rfl

theorem opening_standard {k : Kind} {rule : Opening} (h : Tables.standard.opening k = some rule) :
    match rule with
    | .block => k = .mark .openCurly
    | .whileLoop => k = .keyword .whileWord
    | .conditional => k = .keyword .ifWord
    | .breakLoop => k = .keyword .breakWord
    | .returnValue => k = .keyword .returnWord
    | .declaration => ∃ p : Primitive, k = .keyword p.keyword
    | .name => k = .identifier := by
  unfold Tables.standard at h
  dsimp only at h
  split at h <;> cases h
  · rfl
  · rfl
  · rfl
  · rfl
  · rfl
  · exact ⟨.void, rfl⟩
  · exact ⟨.int, rfl⟩
  · exact ⟨.boolean, rfl⟩
  · exact ⟨.string, rfl⟩
  · rfl

theorem primitive_of_mem {k : Kind} (h : k ∈ [Kind.keyword .voidWord, .keyword .intWord,
    .keyword .booleanWord, .keyword .stringWord]) : ∃ p : Primitive, k = .keyword p.keyword := by
  simp only [List.mem_cons, List.not_mem_nil, or_false] at h
  obtain h | h | h | h := h
  · exact ⟨.void, h⟩
  · exact ⟨.int, h⟩
  · exact ⟨.boolean, h⟩
  · exact ⟨.string, h⟩

theorem typeLeading_begins {s : Symbol} {rule : TypeLeading}
    (h : Tables.standard.typeLeading s.1 = some rule) : ∃ t, IsType symbols [s] t := by
  have hk := typeLeading_standard h
  cases rule with
  | primitive =>
    obtain ⟨p, hp⟩ := hk
    exact ⟨_, .primitive (g := symbols) (p := p) hp⟩
  | named => exact ⟨_, .named (g := symbols) hk⟩

theorem plain_type : IsType symbols [typical .identifier] ⟨.named (sample .identifier), 0, ()⟩ :=
  IsType.named (g := symbols) (t := typical .identifier) rfl

variable {V : List Symbol → Prop} {o p : Parser} {u : List Token}

theorem meets_typeLeading (hA : Allows V (IsType symbols)) {rule : TypeLeading}
    (hr : Tables.standard.typeLeading p.current.kind = some rule) :
    Meets p [] p (typeLeading rule) V fun w t _ => IsType tokens w t := by
  have hk := typeLeading_standard hr
  cases rule with
  | primitive =>
    refine (meets_expectOneOf (List.cons_ne_nil _ _) fun s hs => ?_).bind fun w t q hr hs => ?_
    · obtain ⟨p, hp⟩ := primitive_of_mem hs
      exact hA _ _ (IsType.primitive (g := symbols) hp)
    · obtain ⟨rfl, ht⟩ := hs
      obtain ⟨p, hp⟩ := primitive_of_mem ht
      rw [Primitive.ofKind?_eq_some_iff.2 hp]
      exact meets_pure fun _ => IsType.primitive (g := tokens) hp
  | named =>
    refine (meets_expect fun s hs => ?_).bind fun w t q hr hs => meets_pure fun _ => ?_
    · exact hA _ _ (IsType.named (g := symbols) hs)
    · obtain ⟨rfl, ht⟩ := hs
      exact IsType.named (g := tokens) ht

theorem meets_arrayType (hV : Completable V) {left : TypeRef Span} (ht : IsType tokens u left)
    (hA : Allows V (IsType symbols)) :
    Meets o u p (arrayType left) V fun w t _ => IsType tokens w t := by
  have hs := type_symbols ht
  have harray : ∀ a b : Symbol, a.1 = .mark .openBracket → b.1 = .mark .closeBracket →
      V (u.map symbol ++ [a, b]) := fun a b ha hb => hA _ _ (IsType.array (g := symbols) hs ha hb)
  refine (meets_expect fun a ha => hV.typical [.mark .closeBracket] ?_).bind fun w a q hr hw => ?_
  · simpa using harray a (typical (.mark .closeBracket)) ha rfl
  obtain ⟨rfl, ha⟩ := hw
  refine (meets_expect fun b hb => ?_).bind fun w b r hr hw => meets_pure fun _ => ?_
  · simpa using harray (symbol a) b ha hb
  obtain ⟨rfl, hb⟩ := hw
  have hn : around (u ++ [a, b]) = ⟨left.note.start, b.span.stop⟩ := by
    rw [show left.note = around u from type_note ht, ← start_around_append (type_ne_nil ht) [a, b],
      show b.span.stop = (around [a, b]).stop from rfl,
      ← stop_around_append u (List.cons_ne_nil a [b])]
  rw [← hn, List.append_assoc]
  exact IsType.array (g := tokens) ht ha hb

theorem meets_typeChain (n : Nat) (hV : Completable V) (ho : o.tables = .standard)
    (hA : Allows V (IsType symbols)) {p : Parser} {u : List Token} {left : TypeRef Span}
    (hr : Reads o u p) (ht : IsType tokens u left) (power : Power) :
    Meets o u p (typeChain n left power) V fun w t _ => IsType tokens w t := by
  induction n generalizing p u left with
  | zero => exact meets_outOfCalls
  | succ n ih =>
    rw [typeChain_succ]
    apply meets_lookup
    rw [hr.tables, ho]
    split
    · rename_i held rule hrule
      split
      · exact meets_pure fun _ => ht
      · cases rule with
        | array => exact (meets_arrayType hV ht hA).bind fun w t q hr hs => ih hr hs
    · exact meets_pure fun _ => ht

theorem meets_typeRef (n : Nat) (power : Power) (hV : Completable V) (hp : p.tables = .standard)
    (hA : Allows V (IsType symbols)) :
    Meets p [] p (typeRef n power) V fun w t _ => IsType tokens w t := by
  rw [typeRef_eq]
  apply meets_lookup
  rw [hp]
  split
  · rename_i rule hrule
    exact (meets_typeLeading hA hrule).bind fun w t q hr hs =>
      meets_typeChain n hV hp hA hr hs power
  · rename_i hrule
    rw [← hp] at hrule
    refine meets_refuseEntry (by rw [hp]; decide) hrule fun k hk => ?_
    rw [hp, mem_entries] at hk
    obtain ⟨rule, hrule⟩ := Option.isSome_iff_exists.1 hk
    obtain ⟨t, ht⟩ := typeLeading_begins (s := typical k) hrule
    exact hA _ t ht

theorem plain_statement : IsStatement symbols
    [typical (.keyword .breakWord), typical (.mark .semicolon)] (.breakLoop ()) :=
  IsStatement.breakLoop (g := symbols) rfl rfl

theorem plain_condition : IsCondition symbols
    [typical (.mark .openParen), typical .identifier, typical (.mark .closeParen)] plain :=
  IsCondition.mk (g := symbols) (o := typical (.mark .openParen)) rfl (plain_symbols _) rfl

theorem plain_block : IsBlock symbols
    [typical (.mark .openCurly), typical (.mark .closeCurly)] [] :=
  IsBlock.mk (g := symbols) (o := typical (.mark .openCurly)) rfl .nil rfl

/-- A parse of a statement. An `else` is not left behind a statement that it could belong to. -/
def MeetsStatement (x : Parse (Statement Span)) : Prop :=
  ∀ V, Completable V → ∀ p, p.tables = .standard → Allows V (IsStatement symbols) →
    Meets p [] p x V fun w s q => IsStatement tokens w s ∧
      (endsOpen s → q.current.kind ≠ .keyword .elseWord)

def MeetsBody (x : Parse (List (Statement Span))) : Prop :=
  ∀ V, Completable V → ∀ p, p.tables = .standard →
    (∀ w ss (s : Symbol), IsStatements symbols w ss → s.1 = .mark .closeCurly → V (w ++ [s])) →
    Meets p [] p x V fun w ss _ => IsStatements tokens w ss

variable {branch : Parse (Statement Span)} {body : Parse (List (Statement Span))}

theorem MeetsStatement.behind (hx : MeetsStatement branch) (hV : Completable V)
    (ho : o.tables = .standard) (hr : Reads o u p)
    (hA : ∀ w s, IsStatement symbols w s → V (u.map symbol ++ w)) :
    Meets o u p branch V fun w s q => ∃ v, w = u ++ v ∧ IsStatement tokens v s ∧
      (endsOpen s → q.current.kind ≠ .keyword .elseWord) :=
  (hx _ (hV.behind _) p (hr.tables.trans ho) hA).behind fun w _ _ hs => ⟨w, rfl, hs⟩

theorem MeetsBody.behind (hx : MeetsBody body) (hV : Completable V) (ho : o.tables = .standard)
    (hr : Reads o u p)
    (hA : ∀ w ss (s : Symbol), IsStatements symbols w ss → s.1 = .mark .closeCurly →
      V (u.map symbol ++ (w ++ [s]))) :
    Meets o u p body V fun w ss _ => ∃ v, w = u ++ v ∧ IsStatements tokens v ss :=
  (hx _ (hV.behind _) p (hr.tables.trans ho) hA).behind fun w _ _ hs => ⟨w, rfl, hs⟩

theorem meets_block (hx : MeetsBody body) (hV : Completable V) (ho : o.tables = .standard)
    (hA : ∀ w ss, IsBlock symbols w ss → V (u.map symbol ++ w)) :
    Meets o u p (block body) V fun w b _ => ∃ v, w = u ++ v ∧ IsBlock tokens v b.body ∧
      b.note = around v := by
  have hopen : ∀ s : Symbol, s.1 = .mark .openCurly → V (u.map symbol ++ [s]) := fun s hs =>
    hV.typical [.mark .closeCurly] (by simpa using hA _ _ (IsBlock.mk (g := symbols) (o := s)
      (c := typical (.mark .closeCurly)) hs .nil rfl))
  refine (meets_expect hopen).bind fun w t q hr hs => ?_
  obtain ⟨rfl, ht⟩ := hs
  have hin : ∀ w ss (s : Symbol), IsStatements symbols w ss → s.1 = .mark .closeCurly →
      V ((u ++ [t]).map symbol ++ (w ++ [s])) := fun w ss s hw hs => by
    simpa using hA _ _ (IsBlock.mk (g := symbols) (o := symbol t) ht hw hs)
  refine (hx.behind hV ho hr hin).bind fun w ss q hr hs => ?_
  obtain ⟨v, rfl, hv⟩ := hs
  refine (meets_expect fun s hs => ?_).bind fun w c q hr hs => meets_previousEnd ?_
  · simpa using hin _ _ s (statements_symbols hv) hs
  obtain ⟨rfl, hc⟩ := hs
  have hw : u ++ [t] ++ v ++ [c] = u ++ t :: (v ++ [c]) := by simp
  rw [hw] at hr ⊢
  exact meets_pure fun _ => ⟨_, rfl, IsBlock.mk (g := tokens) ht hv hc, hr.around_cons.symm⟩

theorem meets_condition (n : Nat) (hV : Completable V) (ho : o.tables = .standard)
    (hA : ∀ w e, IsCondition symbols w e → V (u.map symbol ++ w)) :
    Meets o u p (condition n) V fun w e _ => ∃ v, w = u ++ v ∧ IsCondition tokens v e := by
  have hin : ∀ a w e (b : Symbol), a.1 = .mark .openParen → IsExpression symbols .assignment w e →
      b.1 = .mark .closeParen → V (u.map symbol ++ (a :: w ++ [b])) :=
    fun a w e b ha he hb => hA _ _ (IsCondition.mk (g := symbols) ha he hb)
  refine (meets_expect fun a ha => ?_).bind fun w a q hr hs => ?_
  · apply hV.typical [.identifier, .mark .closeParen]
    simpa using hin a _ _ (typical (.mark .closeParen)) ha (plain_symbols _) rfl
  obtain ⟨rfl, ha⟩ := hs
  refine (((meets_expressions n).1 .loosest).behind hV ho hr fun w e he => ?_).bind
    fun w e q hr hs => ?_
  · apply hV.typical [.mark .closeParen]
    simpa using hin (symbol a) _ _ (typical (.mark .closeParen)) ha he rfl
  obtain ⟨v, rfl, he, -⟩ := hs
  refine (meets_expect fun b hb => ?_).bind fun w b q hr hs => meets_pure fun _ => ?_
  · simpa using hin (symbol a) _ _ b ha (expression_symbols he) hb
  obtain ⟨rfl, hb⟩ := hs
  exact ⟨a :: v ++ [b], by simp, IsCondition.mk (g := tokens) ha he hb⟩

theorem meets_endEvaluation {e : Expression Span}
    (he : IsExpression tokens .assignment u e) (hA : Allows V (IsStatement symbols)) :
    Meets o u p (endEvaluation e) V fun w s _ => IsStatement tokens w s ∧ endsOpen s = false := by
  refine (meets_expect fun s hs => ?_).bind fun w c q hr hs => meets_previousEnd ?_
  · exact hA _ _ (IsStatement.evaluation (g := symbols) (expression_symbols he) hs)
  obtain ⟨rfl, hc⟩ := hs
  refine meets_pure fun _ => ⟨?_, rfl⟩
  rw [show e.note = around u from expression_note he, ← hr.around_append (expression_ne_nil he)]
  exact IsStatement.evaluation (g := tokens) he hc

theorem meets_endDeclaration (hV : Completable V) {t : TypeRef Span} (ht : IsType tokens u t)
    (hA : Allows V (IsStatement symbols)) :
    Meets o u p (endDeclaration t) V fun w s _ => IsStatement tokens w s ∧ endsOpen s = false := by
  have hs := type_symbols ht
  have hend : ∀ a b : Symbol, a.1 = .identifier → b.1 = .mark .semicolon →
      V (u.map symbol ++ [a, b]) :=
    fun a b ha hb => hA _ _ (IsStatement.variableDecl (g := symbols) hs ha hb)
  refine (meets_expect fun a ha => hV.typical [.mark .semicolon] ?_).bind fun w a q hr hw => ?_
  · simpa using hend a (typical (.mark .semicolon)) ha rfl
  obtain ⟨rfl, ha⟩ := hw
  refine (meets_expect fun b hb => ?_).bind fun w b q hr hw => meets_previousEnd ?_
  · simpa using hend (symbol a) b ha hb
  obtain ⟨rfl, hb⟩ := hw
  refine meets_pure fun _ => ⟨?_, rfl⟩
  rw [List.append_assoc] at hr ⊢
  rw [show t.note = around u from type_note ht, ← hr.around_append (type_ne_nil ht)]
  exact IsStatement.variableDecl (g := tokens) ht ha hb

/-- A name and empty pairs of brackets, which are a type as well as a value. -/
structure Ambiguous (u : List Token) (name : String) (depth : Nat) (left : Expression Span) :
    Prop where
  type : IsType tokens u ⟨.named name, depth, left.note⟩
  value : IsExpression tokens .call u left

theorem ambiguous_name {t : Token} (h : t.kind = .identifier) :
    Ambiguous [t] t.value 0 (.symbol t.value t.span) where
  type := IsType.named (g := tokens) h
  value := .looser (by decide) (IsExpression.symbol (g := tokens) h)

theorem Ambiguous.emptyIndex {name : String} {depth : Nat} {left : Expression Span}
    (h : Ambiguous u name depth left) {a b : Token} (ha : a.kind = .mark .openBracket)
    (hb : b.kind = .mark .closeBracket) :
    Ambiguous (u ++ [a, b]) name (depth + 1)
      (.emptyIndex left ⟨left.note.start, b.span.stop⟩) := by
  have hn : around (u ++ [a, b]) = ⟨left.note.start, b.span.stop⟩ := by
    rw [show left.note = around u from type_note h.type,
      ← start_around_append (type_ne_nil h.type) [a, b],
      show b.span.stop = (around [a, b]).stop from rfl,
      ← stop_around_append u (List.cons_ne_nil a [b])]
  constructor
  · rw [Expression.note, ← hn]
    exact IsType.array (g := tokens) h.type ha hb
  · rw [← hn]
    exact IsExpression.emptyIndex (g := tokens) h.value ha hb

theorem meets_afterName (n : Nat) (hV : Completable V) (ho : o.tables = .standard)
    (hA : Allows V (IsStatement symbols)) {p : Parser} {u : List Token} {name : String}
    {depth : Nat} {left : Expression Span} (hr : Reads o u p)
    (hu : Ambiguous u name depth left) :
    Meets o u p (afterName n name depth left) V fun w s _ =>
      IsStatement tokens w s ∧ endsOpen s = false := by
  have hE : Allows V (IsExpression symbols .assignment) := fun w e he =>
    hV.typical [.mark .semicolon] (hA _ _ (IsStatement.evaluation (g := symbols) he rfl))
  have hchain := fun n => (meets_expressions n).2.1 .loosest V hV o
  -- each pair of brackets leaves the tokens a type as well as a value
  induction n generalizing p u depth left with
  | zero => exact meets_outOfCalls
  | succ n ih =>
    have hs := expression_symbols hu.value
    apply meets_kind
    split
    · rename_i ho'
      have hempty : ∀ s : Symbol, s.1 = .mark .closeBracket →
          V ((u ++ [p.current]).map symbol ++ [s]) := fun s hc => by
        simpa using hE _ _ (.looser (by decide)
          (IsExpression.emptyIndex (o := symbol p.current) hs ho' hc))
      have hin : ∀ w e (s : Symbol), IsExpression symbols .assignment w e →
          s.1 = .mark .closeBracket → V ((u ++ [p.current]).map symbol ++ w ++ [s]) :=
        fun w e s he hc => by
          simpa using hE _ _ (.looser (by decide)
            (IsExpression.index (o := symbol p.current) hs ho' he hc))
      have hopen : V (u.map symbol ++ [symbol p.current]) := hV.typical [.mark .closeBracket]
        (by simpa using hempty (typical (.mark .closeBracket)) rfl)
      refine (meets_advance hopen).bind fun w t q hr hs => meets_kind ?_
      obtain ⟨rfl, rfl⟩ := hs
      split
      · rename_i hc
        refine (meets_advance (hempty _ hc)).bind fun w t r hr hs => ?_
        obtain ⟨rfl, rfl⟩ := hs
        rw [List.append_assoc] at hr ⊢
        exact ih hr (hu.emptyIndex ho' hc)
      · refine (((meets_expressions n).1 .loosest).behind hV ho hr fun w e he =>
          hV.typical [.mark .closeBracket] (hin w e _ he rfl)).bind fun w e q hr hs => ?_
        obtain ⟨v, rfl, hv, -⟩ := hs
        refine (meets_expect fun s hs => ?_).bind fun w c r hr hs => meets_previousEnd ?_
        · simpa using hin _ _ s (expression_symbols hv) hs
        obtain ⟨rfl, hc⟩ := hs
        have hw : u ++ [p.current] ++ v ++ [c] = u ++ (p.current :: v ++ [c]) := by simp
        have he := IsExpression.index (g := tokens) hu.value ho' hv hc
        rw [List.append_assoc] at he
        rw [hw] at hr ⊢
        rw [show left.note = around u from expression_note hu.value,
          ← hr.around_append (expression_ne_nil hu.value)]
        refine (hchain n _ _ _ ho hr (begun_call he (by decide)) hE).bind
          fun w e q hr hs => meets_endEvaluation hs.1 hA
    · apply meets_kind
      split
      · exact meets_endDeclaration hV hu.type hA
      · refine (hchain n _ _ _ ho hr (begun_call hu.value (by decide)) hE).bind
          fun w e q hr hs => meets_endEvaluation hs.1 hA

theorem meets_nameFirst (n : Nat) (hV : Completable V) (hp : p.tables = .standard)
    (hA : Allows V (IsStatement symbols)) :
    Meets p [] p (nameFirst n) V fun w s _ => IsStatement tokens w s ∧ endsOpen s = false := by
  refine (meets_expect fun s hs => hV.typical [.mark .semicolon] ?_).bind fun w t q hr hs => ?_
  · exact hA _ _ (IsStatement.evaluation (g := symbols)
      (.looser (by decide) (IsExpression.symbol (g := symbols) hs)) rfl)
  obtain ⟨rfl, ht⟩ := hs
  exact meets_afterName n hV hp hA hr (ambiguous_name ht)

theorem meets_declarationFirst (n : Nat) (hV : Completable V) (hp : p.tables = .standard)
    (hA : Allows V (IsStatement symbols)) :
    Meets p [] p (declarationFirst n) V fun w s _ =>
      IsStatement tokens w s ∧ endsOpen s = false := by
  refine (meets_typeRef n .loosest hV hp fun w t ht => ?_).bind fun w t q hr hs =>
    meets_endDeclaration hV hs hA
  apply hV.typical [.identifier, .mark .semicolon]
  exact hA _ _ (IsStatement.variableDecl (g := symbols) ht rfl rfl)

theorem meets_whileLoop (n : Nat) (hx : MeetsBody body) (hV : Completable V)
    (hp : p.tables = .standard) (hA : Allows V (IsStatement symbols))
    (hk : p.current.kind = .keyword .whileWord) :
    Meets p [] p (whileLoop n body) V fun w s _ =>
      IsStatement tokens w s ∧ endsOpen s = false := by
  have hloop : ∀ cs c bs ss, IsCondition symbols cs c → IsBlock symbols bs ss →
      V (symbol p.current :: cs ++ bs) :=
    fun cs c bs ss hc hb => hA _ _ (IsStatement.whileLoop (g := symbols) hk hc hb)
  have htest : ∀ cs c, IsCondition symbols cs c → V (symbol p.current :: cs) := fun cs c hc =>
    hV.typical [.mark .openCurly, .mark .closeCurly] (hloop _ _ _ _ hc plain_block)
  have hword : V [symbol p.current] :=
    hV.typical [.mark .openParen, .identifier, .mark .closeParen] (htest _ _ plain_condition)
  refine (meets_advance hword).bind fun w t q hr hs => ?_
  obtain ⟨rfl, rfl⟩ := hs
  refine (meets_condition (u := [p.current]) n hV hp htest).bind fun w c q hr hs => ?_
  obtain ⟨cs, rfl, hc⟩ := hs
  refine (meets_block hx hV hp fun bs ss hb => ?_).bind fun w b q hr hs => meets_previousEnd ?_
  · simpa using hloop _ _ _ _ (condition_symbols hc) hb
  obtain ⟨bs, rfl, hb, hn⟩ := hs
  refine meets_pure fun hr => ⟨?_, rfl⟩
  rw [← hr.around_first (by simp), hn]
  exact IsStatement.whileLoop (g := tokens) hk hc hb

theorem meets_conditional (n : Nat) (hx : MeetsStatement branch) (hV : Completable V)
    (hp : p.tables = .standard) (hA : Allows V (IsStatement symbols))
    (hk : p.current.kind = .keyword .ifWord) :
    Meets p [] p (conditional n branch) V fun w s q => IsStatement tokens w s ∧
      (endsOpen s → q.current.kind ≠ .keyword .elseWord) := by
  have hif : ∀ cs c ts s, IsCondition symbols cs c → IsStatement symbols ts s →
      V (symbol p.current :: cs ++ ts) :=
    fun cs c ts s hc hs => hA _ _ (IsStatement.ifThen (g := symbols) hk hc hs)
  have htest : ∀ cs c, IsCondition symbols cs c → V (symbol p.current :: cs) := fun cs c hc =>
    hV.typical [.keyword .breakWord, .mark .semicolon] (hif _ _ _ _ hc plain_statement)
  have hword : V [symbol p.current] :=
    hV.typical [.mark .openParen, .identifier, .mark .closeParen] (htest _ _ plain_condition)
  refine (meets_advance hword).bind fun w t q hr hs => ?_
  obtain ⟨rfl, rfl⟩ := hs
  refine (meets_condition (u := [p.current]) n hV hp htest).bind fun w c q hr hs => ?_
  obtain ⟨cs, rfl, hc⟩ := hs
  refine (hx.behind hV hp hr fun ts s hs => ?_).bind fun w yes q hr hs => meets_kind ?_
  · simpa using hif _ _ _ _ (condition_symbols hc) hs
  obtain ⟨ts, rfl, hyes, hend⟩ := hs
  split
  · rename_i he
    have hclosed : endsOpen yes = false := by
      cases h : endsOpen yes with
      | false => rfl
      | true => exact absurd he (hend h)
    have helse : ∀ us s, IsStatement symbols us s →
        V (([] ++ [p.current] ++ cs ++ ts ++ [q.current]).map symbol ++ us) := fun us s hs => by
      have hclosed' : endsOpen (yes.mapNote fun _ => ()) = false := by rwa [endsOpen_mapNote]
      simpa using hA _ _ (IsStatement.ifElse (g := symbols) (w := symbol p.current)
        (e := symbol q.current) hk (condition_symbols hc) (statement_symbols hyes) hclosed' he hs)
    refine (meets_advance ?_).bind fun w t q' hr hs => ?_
    · apply hV.typical [.keyword .breakWord, .mark .semicolon]
      simpa using helse _ _ plain_statement
    obtain ⟨rfl, rfl⟩ := hs
    refine (hx.behind hV hp hr helse).bind fun w no q'' hr hs => meets_previousEnd ?_
    obtain ⟨us, rfl, hno, hend'⟩ := hs
    refine meets_pure fun hr => ⟨?_, hend'⟩
    rw [← hr.around_first (by simp), List.append_assoc _ [q.current]]
    exact IsStatement.ifElse (g := tokens) hk hc hyes hclosed he hno
  · rename_i he
    refine meets_previousEnd (meets_pure fun hr => ⟨?_, fun _ => he⟩)
    rw [← hr.around_first (by simp)]
    exact IsStatement.ifThen (g := tokens) hk hc hyes

theorem meets_breakLoop (hV : Completable V) (hA : Allows V (IsStatement symbols))
    (hk : p.current.kind = .keyword .breakWord) :
    Meets p [] p breakLoop V fun w s _ => IsStatement tokens w s ∧ endsOpen s = false := by
  have hend : ∀ s : Symbol, s.1 = .mark .semicolon → V [symbol p.current, s] :=
    fun s hs => hA _ _ (IsStatement.breakLoop (g := symbols) hk hs)
  have hword : V [symbol p.current] := hV.typical [.mark .semicolon] (hend _ rfl)
  refine (meets_advance hword).bind fun w t q hr hs => ?_
  obtain ⟨rfl, rfl⟩ := hs
  refine (meets_expect (u := [p.current]) hend).bind fun w c q hr hs => meets_previousEnd ?_
  obtain ⟨rfl, hc⟩ := hs
  refine meets_pure fun hr => ⟨?_, rfl⟩
  rw [← hr.around_first (by simp)]
  exact IsStatement.breakLoop (g := tokens) hk hc

theorem meets_returnValue (n : Nat) (hV : Completable V) (hp : p.tables = .standard)
    (hA : Allows V (IsStatement symbols)) (hk : p.current.kind = .keyword .returnWord) :
    Meets p [] p (returnValue n) V fun w s _ => IsStatement tokens w s ∧ endsOpen s = false := by
  have hnone : ∀ s : Symbol, s.1 = .mark .semicolon → V [symbol p.current, s] :=
    fun s hs => hA _ _ (IsStatement.returnNothing (g := symbols) hk hs)
  have hsome : ∀ w e (s : Symbol), IsExpression symbols .assignment w e →
      s.1 = .mark .semicolon → V (symbol p.current :: w ++ [s]) :=
    fun w e s he hs => hA _ _ (IsStatement.returnValue (g := symbols) hk he hs)
  have hword : V [symbol p.current] := hV.typical [.mark .semicolon] (hnone _ rfl)
  refine (meets_advance hword).bind fun w t q hr hs => meets_kind ?_
  obtain ⟨rfl, rfl⟩ := hs
  split
  · rename_i hc
    refine (meets_advance (hnone _ hc)).bind fun w c q hr hs => meets_previousEnd ?_
    obtain ⟨rfl, rfl⟩ := hs
    refine meets_pure fun hr => ⟨?_, rfl⟩
    rw [← hr.around_first (by simp)]
    exact IsStatement.returnNothing (g := tokens) hk hc
  · refine (((meets_expressions n).1 .loosest).behind hV hp hr fun w e he =>
      hV.typical [.mark .semicolon] (hsome _ _ _ he rfl)).bind fun w e q hr hs => ?_
    obtain ⟨v, rfl, he, -⟩ := hs
    refine (meets_expect fun s hs => ?_).bind fun w c q hr hs => meets_previousEnd ?_
    · simpa using hsome _ _ s (expression_symbols he) hs
    obtain ⟨rfl, hc⟩ := hs
    refine meets_pure fun hr => ⟨?_, rfl⟩
    rw [← hr.around_first (by simp)]
    exact IsStatement.returnValue (g := tokens) hk he hc

theorem meets_opening (n : Nat) (hbranch : MeetsStatement branch) (hbody : MeetsBody body)
    (hV : Completable V) (hp : p.tables = .standard) (hA : Allows V (IsStatement symbols))
    {rule : Opening} (hr : Tables.standard.opening p.current.kind = some rule) :
    Meets p [] p (opening n branch body rule) V fun w s q => IsStatement tokens w s ∧
      (endsOpen s → q.current.kind ≠ .keyword .elseWord) := by
  have hclosed : ∀ (s : Statement Span) (q : Parser), endsOpen s = false → endsOpen s →
      q.current.kind ≠ .keyword .elseWord := fun s q hf ht => by
    rw [hf] at ht
    cases ht
  have hk := opening_standard hr
  cases rule with
  | block =>
    refine (meets_block (u := []) hbody hV hp fun w ss hb => hA _ _ (.block hb)).bind
      fun w b q hr hs => meets_pure fun _ => ⟨?_, hclosed _ _ rfl⟩
    obtain ⟨v, rfl, hb, hn⟩ := hs
    rw [hn]
    exact IsStatement.block (g := tokens) hb
  | whileLoop =>
    exact (meets_whileLoop n hbody hV hp hA hk).imp fun _ s q _ hs => ⟨hs.1, hclosed s q hs.2⟩
  | conditional => exact meets_conditional n hbranch hV hp hA hk
  | breakLoop =>
    exact (meets_breakLoop hV hA hk).imp fun _ s q _ hs => ⟨hs.1, hclosed s q hs.2⟩
  | returnValue =>
    exact (meets_returnValue n hV hp hA hk).imp fun _ s q _ hs => ⟨hs.1, hclosed s q hs.2⟩
  | declaration =>
    exact (meets_declarationFirst n hV hp hA).imp fun _ s q _ hs => ⟨hs.1, hclosed s q hs.2⟩
  | name =>
    exact (meets_nameFirst n hV hp hA).imp fun _ s q _ hs => ⟨hs.1, hclosed s q hs.2⟩

theorem meets_statements (n : Nat) : MeetsStatement (statement n) ∧ MeetsBody (statements n) := by
  induction n with
  | zero => exact ⟨fun _ _ _ _ _ => meets_outOfCalls, fun _ _ _ _ _ => meets_outOfCalls⟩
  | succ n ih =>
    obtain ⟨hone, hmany⟩ := ih
    refine ⟨fun V hV p hp hA => ?_, fun V hV p hp hA => ?_⟩
    · rw [statement_succ]
      apply meets_lookup
      rw [hp]
      split
      · rename_i rule hrule
        exact meets_opening n hone hmany hV hp hA hrule
      · refine ((meets_expressions n).1 .loosest V hV p hp fun w e he => ?_).bind
          fun w e q hr hs => (meets_endEvaluation hs.1 hA).imp fun _ s q _ hs => ⟨hs.1, ?_⟩
        · exact hV.typical [.mark .semicolon] (hA _ _ (.evaluation (g := symbols) he rfl))
        · rw [hs.2]
          exact fun h => nomatch h
    · have hclose : ∀ s : Symbol, s.1 = .mark .closeCurly → V [s] := fun s hs => hA [] [] s .nil hs
      apply meets_kind
      split
      · exact meets_pure fun _ => .nil
      · apply meets_kind
        split
        · rename_i hk hend
          refine meets_unexpected (List.cons_ne_nil _ _) ?_ ?_
          · rw [hend]
            decide
          · intro k hm
            rw [List.mem_singleton.1 hm]
            exact hclose _ rfl
        · refine (hone V hV p hp fun w s hs => ?_).bind fun w s q hr hs => ?_
          · apply hV.typical [.mark .closeCurly]
            simpa using hA _ _ (typical (.mark .closeCurly)) (.cons hs .nil) rfl
          refine (hmany.behind hV hp hr fun v ss c hv hc => ?_).bind fun v ss q hr hv =>
            meets_pure fun _ => ?_
          · simpa using hA _ _ c (.cons (statement_symbols hs.1) hv) hc
          obtain ⟨v, rfl, hv⟩ := hv
          exact .cons hs.1 hv

end ModuleSyntax.Proofs.OutcomeStatement
