import ModuleSyntax.Proofs.Levels
import ModuleSyntax.Proofs.Outcome

namespace ModuleSyntax.Proofs.OutcomeExpression

open Parse Motion Grammar Symbols Levels Outcome

variable {α : Type}

def MeetsExpression (power : Power) (x : Parse (Expression Span)) : Prop :=
  ∀ V, Completable V → ∀ p, p.tables = .standard → Allows V (IsExpression symbols (tighter power)) →
    Meets p [] p x V fun w e q => IsExpression tokens (tighter power) w e ∧ Held q power

def MeetsItems (x : Parse (List (Expression Span))) : Prop :=
  ∀ V, Completable V → ∀ p, p.tables = .standard → Allows V (IsItems symbols) →
    Meets p [] p x V fun w es q => IsItems tokens w es ∧ q.current.kind ≠ .mark .comma

variable {V : List Symbol → Prop} {o p : Parser} {u : List Token} {power : Power}
  {x : Parse (Expression Span)} {xs : Parse (List (Expression Span))}
  {f : Power → Parse (Expression Span)}

theorem MeetsExpression.behind (hx : MeetsExpression power x) (hV : Completable V)
    (ho : o.tables = .standard) (hr : Reads o u p)
    (hA : ∀ w e, IsExpression symbols (tighter power) w e → V (u.map symbol ++ w)) :
    Meets o u p x V fun w e q => ∃ v, w = u ++ v ∧
      IsExpression tokens (tighter power) v e ∧ Held q power :=
  (hx _ (hV.behind _) p (hr.tables.trans ho) hA).behind fun w _ _ hs => ⟨w, rfl, hs⟩

theorem MeetsItems.behind (hx : MeetsItems xs) (hV : Completable V) (ho : o.tables = .standard)
    (hr : Reads o u p) (hA : ∀ w es, IsItems symbols w es → V (u.map symbol ++ w)) :
    Meets o u p xs V fun w es q => ∃ v, w = u ++ v ∧ IsItems tokens v es ∧
      q.current.kind ≠ .mark .comma :=
  (hx _ (hV.behind _) p (hr.tables.trans ho) hA).behind fun w _ _ hs => ⟨w, rfl, hs⟩

theorem meets_closedList {ys : Parse (List α)} {close : Mark}
    {L : List Token → List α → Parser → Prop}
    (he : ∀ s : Symbol, s.1 = .mark close → V (u.map symbol ++ [s])) (hx : Meets o u p ys V L)
    (hL : ∀ w as q, L w as q → q.current.kind ≠ .mark .comma ∧
      V (w.map symbol ++ [typical (.mark .comma)]) ∧
      ∀ s : Symbol, s.1 = .mark close → V (w.map symbol ++ [s])) :
    Meets o u p (closedList ys close) V fun w as _ => ∃ c : Token, c.kind = .mark close ∧
      ((w = u ++ [c] ∧ as = []) ∨ ∃ v q, w = v ++ [c] ∧ L v as q) := by
  apply meets_kind
  split
  · rename_i hk
    refine (meets_advance (he _ hk)).bind fun w t q hr hs => meets_pure fun _ => ?_
    exact ⟨t, hs.2 ▸ hk, .inl ⟨hs.1, rfl⟩⟩
  · refine hx.bind fun w as q hr hs => meets_kind ?_
    obtain ⟨hcomma, hvc, hve⟩ := hL w as q hs
    split
    · rename_i hk
      refine (meets_advance (hve _ hk)).bind fun v t r hv ht => meets_pure fun _ => ?_
      exact ⟨t, ht.2 ▸ hk, .inr ⟨w, q, ht.1, hs⟩⟩
    · rename_i hk
      refine meets_unexpected (List.cons_ne_nil _ _) ?_ ?_
      · simp only [List.mem_cons, List.not_mem_nil, or_false, not_or]
        exact ⟨hcomma, hk⟩
      · intro k hm
        simp only [List.mem_cons, List.not_mem_nil, or_false] at hm
        obtain rfl | rfl := hm
        · exact hvc
        · exact hve _ rfl

theorem MeetsItems.closed (hx : MeetsItems xs) {close : Mark} (hV : Completable V)
    (ho : o.tables = .standard) (hr : Reads o u p)
    (hA : ∀ w es, IsClosed symbols close w es → V (u.map symbol ++ w)) :
    Meets o u p (closedList xs close) V fun w es _ => ∃ v, w = u ++ v ∧
      IsClosed tokens close v es := by
  have hnone : ∀ s : Symbol, s.1 = .mark close → V (u.map symbol ++ [s]) := fun s hs =>
    hA [s] [] (IsClosed.none (g := symbols) hs)
  have hitems := hx.behind hV ho hr fun w es hs => by
    apply hV.typical [.mark close]
    simpa using hA _ _ (IsClosed.some (g := symbols) (c := typical (.mark close)) hs rfl)
  refine (meets_closedList hnone hitems fun w es q hs => ?_).imp fun w es q hw hs => ?_
  · obtain ⟨v, rfl, hv, hcomma⟩ := hs
    have hsym := items_symbols hv
    refine ⟨hcomma, ?_, fun s hs => ?_⟩
    · have hmore := items_append hsym (c := typical (.mark .comma)) rfl plain_items
      apply hV.typical [.identifier, .mark close]
      simpa using hA _ _ (IsClosed.some (c := typical (.mark close)) hmore rfl)
    · simpa using hA _ _ (.some hsym hs)
  · obtain ⟨c, hc, ⟨rfl, rfl⟩ | ⟨v, q', rfl, v', rfl, hv, -⟩⟩ := hs
    · exact ⟨[c], rfl, .none hc⟩
    · exact ⟨v' ++ [c], List.append_assoc _ _ _, .some hv hc⟩

/-- What a chain can go on from: an operand that the current token holds no tighter than it. No
operator follows an assignment. -/
def Begun (l : Power) (w : List Token) (e : Expression Span) (q : Parser) : Prop :=
  ∃ m, IsExpression tokens m w e ∧ l ≤ m ∧ Held q m ∧ (m ≤ .assignment → Held q .loosest)

theorem begun_tight {l m : Power} {w : List Token} {e : Expression Span} {q : Parser}
    (h : IsExpression tokens m w e) (hl : l ≤ m) (hh : Held q m) (hm : ¬ m ≤ .assignment) :
    Begun l w e q :=
  ⟨m, h, hl, hh, fun hle => absurd hle hm⟩

theorem begun_primary {w : List Token} {e : Expression Span} {q : Parser}
    (h : IsExpression tokens .primary w e) : Begun .unary w e q :=
  begun_tight h (by decide) ((held_call q).mono (by decide)) (by decide)

theorem begun_call {l : Power} {w : List Token} {e : Expression Span} {q : Parser}
    (h : IsExpression tokens .call w e) (hl : l ≤ .call) : Begun l w e q :=
  begun_tight h hl (held_call q) (by decide)

theorem meets_atom (hA : Allows V (IsExpression symbols .unary))
    (hk : p.current.kind = .intLiteral ∨ p.current.kind = .stringLiteral ∨
      p.current.kind = .identifier ∨ p.current.kind = .keyword .trueWord ∨
      p.current.kind = .keyword .falseWord) :
    Meets p [] p atom V (Begun .unary) := by
  have hv : V [symbol p.current] := by
    obtain h | h | h | h | h := hk
    · exact hA _ _ (.looser (by decide) (IsExpression.int (g := symbols) h))
    · exact hA _ _ (.looser (by decide) (IsExpression.string (g := symbols) h))
    · exact hA _ _ (.looser (by decide) (IsExpression.symbol (g := symbols) h))
    · exact hA _ _ (.looser (by decide) (IsExpression.yes (g := symbols) h))
    · exact hA _ _ (.looser (by decide) (IsExpression.no (g := symbols) h))
  refine (meets_advance hv).bind fun w t q hr hs => ?_
  obtain ⟨rfl, rfl⟩ := hs
  split
  · exact meets_pure fun _ => begun_primary (.int ‹_›)
  · exact meets_pure fun _ => begun_primary (.string ‹_›)
  · exact meets_pure fun _ => begun_primary (.yes ‹_›)
  · exact meets_pure fun _ => begun_primary (.no ‹_›)
  · exact meets_pure fun _ => begun_primary (.symbol ‹_›)
  · simp_all

theorem meets_negation (hx : MeetsExpression .unary x) (hV : Completable V)
    (hp : p.tables = .standard) (hA : Allows V (IsExpression symbols .unary))
    (hk : p.current.kind = .mark .dash) : Meets p [] p (negation x) V (Begun .unary) := by
  have hsign : ∀ w e, IsExpression symbols .unary w e → V (symbol p.current :: w) := fun w e he =>
    hA _ _ (IsExpression.negation (g := symbols) hk he)
  have hfirst : V [symbol p.current] := hV.typical [.identifier] (hsign _ _ (plain_symbols _))
  refine (meets_advance hfirst).bind fun w t q hr hs => ?_
  obtain ⟨rfl, rfl⟩ := hs
  refine (hx.behind hV hp hr hsign).bind fun w e q hr hs => meets_pure fun _ => ?_
  obtain ⟨v, rfl, he, hh⟩ := hs
  refine begun_tight ?_ (Power.le_refl _) hh (by decide)
  rw [← span_from he p.current]
  exact IsExpression.negation (g := tokens) hk he

theorem meets_grouping (hx : MeetsExpression .loosest x) (hV : Completable V)
    (hp : p.tables = .standard) (hA : Allows V (IsExpression symbols .unary))
    (hk : p.current.kind = .mark .openParen) :
    Meets p [] p (grouping x) V (Begun .unary) := by
  have hin : ∀ w e s, IsExpression symbols .assignment w e → s.1 = .mark .closeParen →
      V (symbol p.current :: w ++ [s]) := fun w e s he hs =>
    hA _ _ (.looser (by decide) (IsExpression.group (g := symbols) hk he hs))
  have hopen : ∀ w e, IsExpression symbols .assignment w e → V (symbol p.current :: w) :=
    fun w e he => hV.typical [.mark .closeParen] (hin w e _ he rfl)
  have hfirst : V [symbol p.current] := hV.typical [.identifier] (hopen _ _ (plain_symbols _))
  refine (meets_advance hfirst).bind fun w t q hr hs => ?_
  obtain ⟨rfl, rfl⟩ := hs
  refine (hx.behind hV hp hr hopen).bind fun w e q hr hs => ?_
  obtain ⟨v, rfl, he, -⟩ := hs
  refine (meets_expect fun s hs => ?_).bind fun w c r hr hs => meets_previousEnd ?_
  · simpa using hin _ _ s (expression_symbols he) hs
  obtain ⟨rfl, hc⟩ := hs
  refine meets_pure fun _ => begun_primary ?_
  have hn := hr.around_eq (by simp)
  rw [Parser.position] at hn
  rw [← hn]
  exact IsExpression.group (g := tokens) hk he hc

theorem meets_arrayLiteral (hx : MeetsItems xs) (hV : Completable V)
    (hp : p.tables = .standard) (hA : Allows V (IsExpression symbols .unary))
    (hk : p.current.kind = .mark .openBracket) :
    Meets p [] p (arrayLiteral xs) V (Begun .unary) := by
  have hopen : ∀ w es, IsClosed symbols .closeBracket w es → V (symbol p.current :: w) :=
    fun w es hs => hA _ _ (.looser (by decide) (IsExpression.array (g := symbols) hk hs))
  have hfirst : V [symbol p.current] := hV.typical [.mark .closeBracket]
    (hopen [typical (.mark .closeBracket)] [] (.none rfl))
  refine (meets_advance hfirst).bind fun w t q hr hs => ?_
  obtain ⟨rfl, rfl⟩ := hs
  refine (hx.closed hV hp hr hopen).bind fun w es q hr hs => meets_previousEnd ?_
  obtain ⟨v, rfl, hv⟩ := hs
  refine meets_pure fun _ => begun_primary ?_
  have hn := hr.around_eq (by simp)
  rw [Parser.position] at hn
  rw [← hn]
  exact IsExpression.array (g := tokens) hk hv

theorem meets_leading (hf : ∀ power, MeetsExpression power (f power)) (hx : MeetsItems xs)
    (hV : Completable V) (hp : p.tables = .standard) (hA : Allows V (IsExpression symbols .unary))
    {rule : Leading} (hr : Tables.standard.leading p.current.kind = some rule) :
    Meets p [] p (leading f xs rule) V (Begun .unary) := by
  have hk := leading_standard hr
  cases rule with
  | atom => exact meets_atom hA hk
  | negation => exact meets_negation (hf _) hV hp hA hk
  | grouping => exact meets_grouping (hf _) hV hp hA hk
  | arrayLiteral => exact meets_arrayLiteral hx hV hp hA hk

variable {l m : Power} {left : Expression Span}

theorem meets_assignment (hx : MeetsExpression .loosest x) (hV : Completable V)
    (ho : o.tables = .standard) (he : IsExpression tokens .equality u left)
    (hl : l ≤ .assignment) (hA : Allows V (IsExpression symbols l))
    (hk : p.current.kind = .mark .assignment) :
    Meets o u p (assignment x left) V (Begun l) := by
  unfold assignment
  split
  · rename_i h
    have ht : Assignable left := isTarget_iff.1 h
    have hs := expression_symbols he
    have hval : ∀ w e, IsExpression symbols .assignment w e →
        V ((u ++ [p.current]).map symbol ++ w) := fun w e he => by
      simpa using hA _ _ (.looser hl (IsExpression.assignment (o := symbol p.current) hs
        (assignable_mapNote.2 ht) hk he))
    have hsign : V (u.map symbol ++ [symbol p.current]) :=
      hV.typical [.identifier] (by simpa using hval _ _ (plain_symbols _))
    refine (meets_advance hsign).bind fun w t q hr hs => ?_
    obtain ⟨rfl, rfl⟩ := hs
    refine (hx.behind hV ho hr hval).bind fun w e q hr hs => meets_pure fun _ => ?_
    obtain ⟨v, rfl, hv, hh⟩ := hs
    refine ⟨.assignment, ?_, hl, hh.mono (by decide), fun _ => hh⟩
    rw [← span_between he hv p.current, List.append_assoc]
    exact IsExpression.assignment (o := p.current) he ht hk hv
  · rename_i h
    have ht : ¬ Assignable left := fun ht => h (isTarget_iff.2 ht)
    have hany : ∀ w e, IsExpression symbols .assignment w e → V w := fun w e he =>
      hA w e (.looser hl he)
    intro hr r q hx
    cases hx
    refine ⟨u, hr, .badTarget hk ?_ ⟨[], u, left, rfl, he, ht, hany⟩⟩
    exact hany _ _ (.looser (by decide) (expression_symbols he))

theorem meets_binary (hf : ∀ power, MeetsExpression power (f power)) (hV : Completable V)
    (ho : o.tables = .standard) {op : BinaryOp}
    (he : IsExpression tokens (Grammar.power op) u left) (hl : l ≤ Grammar.power op)
    (hA : Allows V (IsExpression symbols l)) (hk : p.current.kind = .mark op.mark) :
    Meets o u p (binary f left (Grammar.power op)) V (Begun l) := by
  have hs := expression_symbols he
  have hval : ∀ w e, IsExpression symbols (tighter (Grammar.power op)) w e →
      V ((u ++ [p.current]).map symbol ++ w) := fun w e he => by
    simpa using hA _ _ (.looser hl (IsExpression.binary (o := symbol p.current) hs hk he))
  have hsign : V (u.map symbol ++ [symbol p.current]) :=
    hV.typical [.identifier] (by simpa using hval _ _ (plain_symbols _))
  refine (meets_advance hsign).bind fun w t q hr hs => ?_
  obtain ⟨rfl, rfl⟩ := hs
  rw [BinaryOp.ofKind?_eq_some_iff.2 hk]
  refine ((hf _).behind hV ho hr hval).bind fun w e q hr hs => meets_pure fun _ => ?_
  obtain ⟨v, rfl, hv, hh⟩ := hs
  refine begun_tight ?_ hl hh (by cases op <;> decide)
  rw [← span_between he hv p.current, List.append_assoc]
  exact IsExpression.binary (o := p.current) he hk hv

theorem meets_call (hx : MeetsItems xs) (hV : Completable V) (ho : o.tables = .standard)
    (he : IsExpression tokens .call u left) (hl : l ≤ .call)
    (hA : Allows V (IsExpression symbols l)) (hk : p.current.kind = .mark .openParen) :
    Meets o u p (call xs left) V (Begun l) := by
  have hs := expression_symbols he
  have hopen : ∀ w es, IsClosed symbols .closeParen w es →
      V ((u ++ [p.current]).map symbol ++ w) := fun w es hc => by
    simpa using hA _ _ (.looser hl (IsExpression.call (o := symbol p.current) hs hk hc))
  have hfirst : V (u.map symbol ++ [symbol p.current]) := hV.typical [.mark .closeParen]
    (by simpa using hopen [typical (.mark .closeParen)] [] (.none rfl))
  refine (meets_advance hfirst).bind fun w t q hr hs => ?_
  obtain ⟨rfl, rfl⟩ := hs
  refine (hx.closed hV ho hr hopen).bind fun w es q hr hs => meets_previousEnd ?_
  obtain ⟨v, rfl, hv⟩ := hs
  refine meets_pure fun _ => begun_call ?_ hl
  rw [List.append_assoc] at hr ⊢
  rw [show left.note = around u from expression_note he,
    ← hr.around_append (expression_ne_nil he)]
  exact IsExpression.call (g := tokens) he hk hv

theorem meets_index (hx : MeetsExpression .loosest x) (hV : Completable V)
    (ho : o.tables = .standard) (he : IsExpression tokens .call u left)
    (hl : l ≤ .call) (hA : Allows V (IsExpression symbols l))
    (hk : p.current.kind = .mark .openBracket) : Meets o u p (index x left) V (Begun l) := by
  have hs := expression_symbols he
  have hempty : ∀ s : Symbol, s.1 = .mark .closeBracket →
      V ((u ++ [p.current]).map symbol ++ [s]) := fun s hc => by
    simpa using hA _ _ (.looser hl (IsExpression.emptyIndex (o := symbol p.current) hs hk hc))
  have hin : ∀ w e (s : Symbol), IsExpression symbols .assignment w e →
      s.1 = .mark .closeBracket → V ((u ++ [p.current]).map symbol ++ w ++ [s]) :=
    fun w e s he hc => by
      simpa using hA _ _ (.looser hl (IsExpression.index (o := symbol p.current) hs hk he hc))
  have hopen : V (u.map symbol ++ [symbol p.current]) := hV.typical [.mark .closeBracket]
    (by simpa using hempty (typical (.mark .closeBracket)) rfl)
  refine (meets_advance hopen).bind fun w t q hr hs => meets_kind ?_
  obtain ⟨rfl, rfl⟩ := hs
  split
  · rename_i hc
    refine (meets_advance (hempty _ hc)).bind fun w t r hr hs => meets_previousEnd ?_
    obtain ⟨rfl, rfl⟩ := hs
    refine meets_pure fun _ => begun_call ?_ hl
    rw [List.append_assoc] at hr ⊢
    rw [show left.note = around u from expression_note he,
      ← hr.around_append (expression_ne_nil he)]
    exact IsExpression.emptyIndex (g := tokens) he hk hc
  · refine (hx.behind hV ho hr fun w e he =>
      hV.typical [.mark .closeBracket] (hin w e _ he rfl)).bind fun w e q hr hs => ?_
    obtain ⟨v, rfl, hv, -⟩ := hs
    refine (meets_expect fun s hs => ?_).bind fun w c r hr hs => meets_previousEnd ?_
    · simpa using hin _ _ s (expression_symbols hv) hs
    obtain ⟨rfl, hc⟩ := hs
    refine meets_pure fun _ => begun_call ?_ hl
    have hw : u ++ [p.current] ++ v ++ [c] = u ++ (p.current :: v ++ [c]) := by simp
    rw [hw] at hr ⊢
    rw [show left.note = around u from expression_note he,
      ← hr.around_append (expression_ne_nil he), ← List.append_assoc]
    exact IsExpression.index (g := tokens) he hk hv hc

theorem meets_trailing (hf : ∀ power, MeetsExpression power (f power)) (hx : MeetsItems xs)
    (hV : Completable V) (ho : o.tables = .standard)
    (he : Begun l u left p) (hA : Allows V (IsExpression symbols l)) {held : Power}
    {rule : Trailing} (hrule : Tables.standard.trailing p.current.kind = some (held, rule))
    (hl : l ≤ held) : Meets o u p (trailing f xs rule left held) V (Begun l) := by
  obtain ⟨m, he, hm, hh, hnone⟩ := he
  have hheld := hh held rule hrule
  have hk := trailing_standard hrule
  cases rule with
  | assignment =>
    obtain ⟨hk, rfl⟩ := hk
    have htight : ¬ m ≤ .assignment := fun hle => absurd (hnone hle _ _ hrule) (by decide)
    exact meets_assignment (hf _) hV ho (.looser (tighter_le htight) he) hl hA hk
  | binary =>
    obtain ⟨op, hk, rfl⟩ := hk
    exact meets_binary hf hV ho (.looser hheld he) hl hA hk
  | call =>
    obtain ⟨hk, rfl⟩ := hk
    exact meets_call hx hV ho (.looser hheld he) hl hA hk
  | index =>
    obtain ⟨hk, rfl⟩ := hk
    exact meets_index (hf _) hV ho (.looser hheld he) hl hA hk

def MeetsChain (power : Power) (x : Expression Span → Parse (Expression Span)) : Prop :=
  ∀ V, Completable V → ∀ o u p left, o.tables = .standard → Reads o u p →
    Begun (tighter power) u left p → Allows V (IsExpression symbols (tighter power)) →
    Meets o u p (x left) V fun w e q => IsExpression tokens (tighter power) w e ∧ Held q power

section

variable {n : Nat} (hexpr : ∀ power, MeetsExpression power (expression n power))
  (hchain : ∀ power, MeetsChain power fun left => chain n left power)
  (hitems : MeetsItems (items n))

include hexpr hchain hitems in
theorem meets_expression_succ (power : Power) :
    MeetsExpression power (expression (n + 1) power) := by
  intro V hV p hp hA
  rw [expression_succ]
  apply meets_lookup
  rw [hp]
  split
  · rename_i rule hrule
    have hunary : Allows V (IsExpression symbols .unary) :=
      fun w e he => hA w e (.looser (tighter_le_unary power) he)
    refine (meets_leading hexpr hitems hV hp hunary hrule).bind fun w e q hr hs => ?_
    obtain ⟨m, he, hm, hh⟩ := hs
    have hm' := Power.le_trans (tighter_le_unary power) hm
    exact hchain power V hV p w q e hp hr ⟨m, he, hm', hh⟩ hA
  · rename_i hrule
    rw [← hp] at hrule
    refine meets_refuseEntry (by rw [hp]; decide) hrule fun k hk => ?_
    rw [hp, mem_entries] at hk
    obtain ⟨rule, hrule⟩ := Option.isSome_iff_exists.1 hk
    obtain ⟨ks, e, he⟩ := leading_begins hrule
    exact hV.typical ks (hA _ e (.looser (tighter_le_unary power) he))

include hexpr hchain hitems in
theorem meets_chain_succ (power : Power) :
    MeetsChain power fun left => chain (n + 1) left power := by
  intro V hV o u p left ho hr he hA
  dsimp only
  rw [chain_succ]
  apply meets_lookup
  rw [hr.tables, ho]
  split
  · rename_i held rule hrule
    split
    · rename_i hle
      obtain ⟨m, he, hm, -⟩ := he
      refine meets_pure fun _ => ⟨.looser hm he, fun held' rule' h => ?_⟩
      rw [hrule] at h
      cases h
      exact hle
    · rename_i hle
      refine (meets_trailing hexpr hitems hV ho he hA hrule (tighter_le hle)).bind
        fun w e q hr hs => ?_
      exact hchain power V hV o w q e ho hr hs hA
  · rename_i hrule
    obtain ⟨m, he, hm, -⟩ := he
    refine meets_pure fun _ => ⟨.looser hm he, fun held rule h => ?_⟩
    rw [hrule] at h
    cases h

include hexpr hitems in
theorem meets_items_succ : MeetsItems (items (n + 1)) := by
  intro V hV p hp hA
  refine (hexpr .loosest V hV p hp fun w e he => hA _ _ (.one he)).bind
    fun w e q hr hs => meets_kind ?_
  obtain ⟨he, -⟩ := hs
  split
  · rename_i hk
    have hmore : ∀ v es, IsItems symbols v es → V ((w ++ [q.current]).map symbol ++ v) :=
      fun v es hs => by
        simpa using hA _ _ (IsItems.more (c := symbol q.current) (expression_symbols he) hk hs)
    have hcomma : V (w.map symbol ++ [symbol q.current]) :=
      hV.typical [.identifier] (by simpa using hmore _ _ plain_items)
    refine (meets_advance hcomma).bind fun v t r hr hs => ?_
    obtain ⟨rfl, rfl⟩ := hs
    refine (hitems.behind hV hp hr hmore).bind fun v es s hr hs => meets_pure fun _ => ?_
    obtain ⟨v, rfl, hv, hc⟩ := hs
    rw [List.append_assoc]
    exact ⟨IsItems.more (c := q.current) he hk hv, hc⟩
  · rename_i hk
    exact meets_pure fun _ => ⟨.one he, hk⟩

end

theorem meets_expressions (n : Nat) :
    (∀ power, MeetsExpression power (expression n power)) ∧
    (∀ power, MeetsChain power fun left => chain n left power) ∧ MeetsItems (items n) := by
  induction n with
  | zero =>
    exact ⟨fun _ _ _ _ _ _ => meets_outOfCalls, fun _ _ _ _ _ _ _ _ _ _ _ => meets_outOfCalls,
      fun _ _ _ _ _ => meets_outOfCalls⟩
  | succ n ih =>
    obtain ⟨hexpr, hchain, hitems⟩ := ih
    exact ⟨meets_expression_succ hexpr hchain hitems, meets_chain_succ hexpr hchain hitems,
      meets_items_succ hexpr hitems⟩

end ModuleSyntax.Proofs.OutcomeExpression
