import ModuleSyntax.Parse.Module
import ModuleSyntax.Proofs.OutcomeStatement

namespace ModuleSyntax.Proofs.OutcomeModule

open Parse Motion Grammar Symbols Levels Outcome OutcomeExpression OutcomeStatement

variable {V : List Symbol → Prop} {o p : Parser} {u : List Token}

theorem meets_importLine (hV : Completable V)
    (hA : ∀ a b c : Symbol, a.1 = .keyword .importWord → b.1 = .identifier →
      c.1 = .mark .semicolon → V [a, b, c]) :
    Meets p [] p importLine V fun w i _ => ∃ a b c : Token, w = [a, b, c] ∧
      a.kind = .keyword .importWord ∧ b.kind = .identifier ∧ c.kind = .mark .semicolon ∧
      i = ⟨b.value, around [a, b, c]⟩ := by
  refine (meets_expect fun a ha => ?_).bind fun w a q hr hs => ?_
  · exact hV.typical [.identifier, .mark .semicolon] (hA a _ _ ha rfl rfl)
  obtain ⟨rfl, ha⟩ := hs
  refine (meets_expect fun b hb => ?_).bind fun w b q hr hs => ?_
  · exact hV.typical [.mark .semicolon] (hA _ b _ ha hb rfl)
  obtain ⟨rfl, hb⟩ := hs
  refine (meets_expect fun c hc => hA _ _ c ha hb hc).bind fun w c q hr hs => ?_
  obtain ⟨rfl, hc⟩ := hs
  refine meets_previousEnd (meets_pure fun hr => ⟨a, b, c, rfl, ha, hb, hc, ?_⟩)
  have hn := (show Reads p ([] ++ a :: [b, c]) _ from hr).around_cons
  rw [hn]

theorem meets_imports (n : Nat) (hV : Completable V) (hA : Allows V (IsImports symbols)) :
    Meets p [] p (imports n) V fun w is _ => IsImports tokens w is := by
  induction n generalizing p V with
  | zero => exact meets_outOfCalls
  | succ n ih =>
    apply meets_kind
    split
    · refine (meets_importLine hV fun a b c ha hb hc => hA _ _ (IsImports.cons ha hb hc .nil)).bind
        fun w i q hr hs => ?_
      obtain ⟨a, b, c, rfl, ha, hb, hc, rfl⟩ := hs
      have hrest : Allows (fun w => V ([a, b, c].map symbol ++ w)) (IsImports symbols) :=
        fun w is hs => hA _ _ (IsImports.cons (g := symbols) (w := symbol a) (n := symbol b)
          (c := symbol c) ha hb hc hs)
      refine ((ih (hV.behind _) hrest).behind (T := fun w is _ => ∃ v, w = [a, b, c] ++ v ∧
        IsImports tokens v is) fun w is _ hs => ⟨w, rfl, hs⟩).bind
        fun w is q hr hs => meets_pure fun _ => ?_
      obtain ⟨v, rfl, hv⟩ := hs
      exact IsImports.cons (g := tokens) ha hb hc hv
    · exact meets_pure fun _ => .nil

theorem meets_parameter (n : Nat) (hV : Completable V) (hp : p.tables = .standard)
    (hA : Allows V (IsParameter symbols)) :
    Meets p [] p (parameter n) V fun w a _ => IsParameter tokens w a := by
  refine (meets_typeRef n .loosest hV hp fun w t ht => ?_).bind fun w t q hr ht => ?_
  · exact hV.typical [.identifier] (hA _ _ (IsParameter.mk (g := symbols) ht rfl))
  refine (meets_expect fun s hs => ?_).bind fun w c q hr hs => meets_previousEnd ?_
  · exact hA _ _ (IsParameter.mk (g := symbols) (type_symbols ht) hs)
  obtain ⟨rfl, hc⟩ := hs
  refine meets_pure fun _ => ?_
  rw [show t.note = around w from type_note ht, ← hr.around_append (type_ne_nil ht)]
  exact IsParameter.mk (g := tokens) ht hc

theorem plain_parameter : IsParameter symbols [typical .identifier, typical .identifier]
    ⟨⟨.named (sample .identifier), 0, ()⟩, sample .identifier, ()⟩ :=
  IsParameter.mk (g := symbols) (n := typical .identifier) plain_type rfl

theorem parameters_append {τ α : Type} {g : Terminals τ α} {c : τ} {ts us : List τ}
    {ps qs : List (Parameter α)} (h : IsParameters g ts ps) (hc : g.kind c = .mark .comma)
    (hq : IsParameters g us qs) : IsParameters g (ts ++ c :: us) (ps ++ qs) := by
  induction h with
  | one hp => exact .more hp hc hq
  | more hp hd hs ih =>
    rw [List.append_assoc]
    exact .more hp hd ih

theorem meets_parameters (n : Nat) (hV : Completable V) (hp : p.tables = .standard)
    (hA : Allows V (IsParameters symbols)) :
    Meets p [] p (parameters n) V fun w ps q => IsParameters tokens w ps ∧
      q.current.kind ≠ .mark .comma := by
  induction n generalizing p V with
  | zero => exact meets_outOfCalls
  | succ n ih =>
    refine (meets_parameter n hV hp fun w a ha => hA _ _ (.one ha)).bind
      fun w a q hr ha => meets_kind ?_
    split
    · rename_i hk
      have hmore : ∀ v ps, IsParameters symbols v ps → V ((w ++ [q.current]).map symbol ++ v) :=
        fun v ps hs => by
          simpa using
            hA _ _ (IsParameters.more (c := symbol q.current) (parameter_symbols ha) hk hs)
      have hcomma : V (w.map symbol ++ [symbol q.current]) :=
        hV.typical [.identifier, .identifier] (by simpa using hmore _ _ (.one plain_parameter))
      refine (meets_advance hcomma).bind fun v t r hr hs => ?_
      obtain ⟨rfl, rfl⟩ := hs
      refine ((ih (hV.behind _) (hr.tables.trans hp) hmore).behind
        (T := fun v ps s => IsParameters tokens v (a :: ps) ∧ s.current.kind ≠ .mark .comma)
        fun v ps s hs => ?_).bind fun v ps s hr hs => meets_pure fun _ => hs
      rw [List.append_assoc]
      exact ⟨IsParameters.more (c := q.current) ha hk hs.1, hs.2⟩
    · rename_i hk
      exact meets_pure fun _ => ⟨.one ha, hk⟩

theorem meets_signature (n : Nat) (hV : Completable V) (hp : p.tables = .standard)
    (hA : Allows V (IsSignature symbols)) :
    Meets p [] p (closedList (parameters n) .closeParen) V fun w ps _ =>
      IsSignature tokens w ps := by
  have hlist := meets_parameters n hV hp fun w ps hs => hV.typical [.mark .closeParen]
    (hA _ _ (IsSignature.some (g := symbols) (c := typical (.mark .closeParen)) hs rfl))
  refine (meets_closedList (fun s hs => hA [s] [] (.none (g := symbols) hs)) hlist
    fun w ps q hs => ?_).imp fun w ps q hw hs => ?_
  · obtain ⟨hv, hcomma⟩ := hs
    have hsym := parameters_symbols hv
    refine ⟨hcomma, ?_, fun s hs => hA _ _ (.some hsym hs)⟩
    have hmore := parameters_append hsym (c := typical (.mark .comma)) rfl (.one plain_parameter)
    apply hV.typical [.identifier, .identifier, .mark .closeParen]
    simpa using hA _ _ (IsSignature.some (c := typical (.mark .closeParen)) hmore rfl)
  · obtain ⟨c, hc, ⟨rfl, rfl⟩ | ⟨v, q', rfl, hv, -⟩⟩ := hs
    · exact .none hc
    · exact .some hv hc

theorem meets_visibility (hA : Allows V (IsVisibility symbols)) :
    Meets p [] p visibility V fun w v _ => IsVisibility tokens w v := by
  apply meets_kind
  split
  · rename_i hk
    have hword : V [symbol p.current] := hA _ _ (IsVisibility.outside (g := symbols) hk)
    refine (meets_advance hword).bind fun w t q hr hs => meets_pure fun _ => ?_
    obtain ⟨rfl, rfl⟩ := hs
    exact IsVisibility.outside (g := tokens) hk
  · exact meets_pure fun _ => .inside

variable {v : Bool}

theorem meets_typeAlias (hV : Completable V) (hv : IsVisibility tokens u v)
    (hA : Allows V (IsDeclaration symbols)) :
    Meets o u p (typeAlias v o.position) V fun w d _ => IsDeclaration tokens w d := by
  have halias : ∀ a b c d e : Symbol, a.1 = .keyword .typeWord → b.1 = .identifier →
      c.1 = .mark .assignment → d.1 = .stringLiteral → e.1 = .mark .semicolon →
      V (u.map symbol ++ [a, b, c, d, e]) := fun a b c d e ha hb hc hd he =>
    hA _ _ (IsDeclaration.typeAlias (g := symbols) (visibility_symbols hv) ha hb hc hd he)
  refine (meets_expect fun a ha => ?_).bind fun w a q hr hs => ?_
  · apply hV.typical [.identifier, .mark .assignment, .stringLiteral, .mark .semicolon]
    simpa using halias a _ _ _ _ ha rfl rfl rfl rfl
  obtain ⟨rfl, ha⟩ := hs
  refine (meets_expect fun b hb => ?_).bind fun w b q hr hs => ?_
  · apply hV.typical [.mark .assignment, .stringLiteral, .mark .semicolon]
    simpa using halias (symbol a) b _ _ _ ha hb rfl rfl rfl
  obtain ⟨rfl, hb⟩ := hs
  refine (meets_expect fun c hc => ?_).bind fun w c q hr hs => ?_
  · apply hV.typical [.stringLiteral, .mark .semicolon]
    simpa using halias (symbol a) (symbol b) c _ _ ha hb hc rfl rfl
  obtain ⟨rfl, hc⟩ := hs
  refine (meets_expect fun d hd => ?_).bind fun w d q hr hs => ?_
  · apply hV.typical [.mark .semicolon]
    simpa using halias (symbol a) (symbol b) (symbol c) d _ ha hb hc hd rfl
  obtain ⟨rfl, hd⟩ := hs
  refine (meets_expect fun e he => ?_).bind fun w e q hr hs => meets_previousEnd ?_
  · simpa using halias (symbol a) (symbol b) (symbol c) (symbol d) e ha hb hc hd he
  obtain ⟨rfl, he⟩ := hs
  refine meets_pure fun hr => ?_
  have hw : u ++ [a] ++ [b] ++ [c] ++ [d] ++ [e] = u ++ [a, b, c, d, e] := by simp
  rw [← hr.around_eq (by simp), hw]
  exact IsDeclaration.typeAlias (g := tokens) hv ha hb hc hd he

theorem meets_member (n : Nat) (hV : Completable V) (ho : o.tables = .standard)
    (hr : Reads o u p) (hv : IsVisibility tokens u v) (hA : Allows V (IsDeclaration symbols)) :
    Meets o u p (member n v o.position) V fun w d _ => IsDeclaration tokens w d := by
  have hvs := visibility_symbols hv
  have hfield : ∀ ts t (a b : Symbol), IsType symbols ts t → a.1 = .identifier →
      b.1 = .mark .semicolon → V (u.map symbol ++ ts ++ [a, b]) := fun ts t a b ht ha hb =>
    hA _ _ (IsDeclaration.field (g := symbols) hvs ht ha hb)
  refine ((meets_typeRef n .loosest (hV.behind (u.map symbol)) (hr.tables.trans ho)
    fun ts t ht => ?_).behind (T := fun w t _ => ∃ ts, w = u ++ ts ∧ IsType tokens ts t)
      fun w t _ hs => ⟨w, rfl, hs⟩).bind fun w t q hr ht => ?_
  · exact hV.typical [.identifier, .mark .semicolon] (hfield ts t _ _ ht rfl rfl)
  obtain ⟨ts, rfl, ht⟩ := ht
  have hts := type_symbols ht
  refine (meets_expect fun a ha => ?_).bind fun w a q hr hs => meets_kind ?_
  · apply hV.typical [.mark .semicolon]
    simpa using hfield _ _ a _ hts ha rfl
  obtain ⟨rfl, ha⟩ := hs
  have hsig : ∀ (b : Symbol) us ps bs ss, b.1 = .mark .openParen → IsSignature symbols us ps →
      IsBlock symbols bs ss →
      V ((u ++ ts ++ [a]).map symbol ++ b :: us ++ bs) := fun b us ps bs ss hb hp hs => by
    simpa using hA _ _ (IsDeclaration.function (g := symbols) (n := symbol a) hvs hts ha hb hp hs)
  have hopen : ∀ b : Symbol, b.1 = .mark .openParen → V ((u ++ ts ++ [a]).map symbol ++ [b]) :=
    fun b hb => by
      apply hV.typical [.mark .closeParen, .mark .openCurly, .mark .closeCurly]
      simpa using hsig b [typical (.mark .closeParen)] [] _ _ hb (.none rfl) plain_block
  have hend : ∀ b : Symbol, b.1 = .mark .semicolon → V ((u ++ ts ++ [a]).map symbol ++ [b]) :=
    fun b hb => by simpa using hfield _ _ (symbol a) b hts ha hb
  split
  · rename_i hk
    refine (meets_advance (hend _ hk)).bind fun w b q hr hs => meets_previousEnd ?_
    obtain ⟨rfl, rfl⟩ := hs
    refine meets_pure fun hr => ?_
    rw [← hr.around_eq (by simp), List.append_assoc _ [a]]
    exact IsDeclaration.field (g := tokens) hv ht ha hk
  · rename_i hk
    refine (meets_advance (hopen _ hk)).bind fun w b q' hr hs => ?_
    obtain ⟨rfl, rfl⟩ := hs
    refine ((meets_signature n (hV.behind _) (hr.tables.trans ho) fun us ps hs => ?_).behind
      (T := fun w ps _ => ∃ us, w = u ++ ts ++ [a] ++ [q.current] ++ us ∧ IsSignature tokens us ps)
      fun w ps _ hs => ⟨w, rfl, hs⟩).bind fun w ps q' hr hs => ?_
    · apply hV.typical [.mark .openCurly, .mark .closeCurly]
      simpa using hsig _ us ps _ _ hk hs plain_block
    obtain ⟨us, rfl, hps⟩ := hs
    refine (meets_block (meets_statements n).2 hV ho fun bs ss hb => ?_).bind
      fun w b q' hr hs => meets_previousEnd ?_
    · simpa using hsig _ _ _ bs ss hk (signature_symbols hps) hb
    obtain ⟨bs, rfl, hb, hn⟩ := hs
    refine meets_pure fun hr => ?_
    have hw : u ++ ts ++ [a] ++ [q.current] ++ us ++ bs =
        u ++ ts ++ a :: q.current :: us ++ bs := by simp
    rw [← hr.around_eq (by simp), hw]
    obtain ⟨ss, note⟩ := b
    dsimp only at hn
    rw [hn]
    exact IsDeclaration.function (g := tokens) hv ht ha hk hps hb
  · rename_i hsemi hparen
    refine meets_unexpected (List.cons_ne_nil _ _) ?_ fun k hm => ?_
    · simp only [List.mem_cons, List.not_mem_nil, or_false, not_or]
      exact ⟨hsemi, hparen⟩
    · simp only [List.mem_cons, List.not_mem_nil, or_false] at hm
      obtain rfl | rfl := hm
      · exact hend _ rfl
      · exact hopen _ rfl

theorem least_declaration {u : List Symbol} (hv : IsVisibility symbols u v) :
    ∃ d, IsDeclaration symbols
      (u ++ [typical .identifier, typical .identifier, typical (.mark .semicolon)]) d := by
  have hd := IsDeclaration.field (g := symbols) (n := typical .identifier)
    (c := typical (.mark .semicolon)) hv plain_type rfl rfl
  rw [List.append_assoc] at hd
  exact ⟨_, hd⟩

theorem meets_declaration (n : Nat) (hV : Completable V) (hp : p.tables = .standard)
    (hA : Allows V (IsDeclaration symbols)) :
    Meets p [] p (declaration n) V fun w d _ => IsDeclaration tokens w d := by
  refine meets_position ((meets_visibility fun u v hv => ?_).bind
    fun w v q hr hv => meets_kind ?_)
  · obtain ⟨d, hd⟩ := least_declaration hv
    exact hV.typical [.identifier, .identifier, .mark .semicolon] (hA _ d hd)
  · split
    · exact meets_typeAlias hV hv hA
    · exact meets_member n hV hp hr hv hA

theorem meets_declarations (n : Nat) (hV : Completable V) (hp : p.tables = .standard)
    (hA : Allows V (IsDeclarations symbols)) :
    Meets p [] p (declarations n) V fun w ds _ => IsDeclarations tokens w ds := by
  induction n generalizing p V with
  | zero => exact meets_outOfCalls
  | succ n ih =>
    apply meets_kind
    split
    · exact meets_pure fun _ => .nil
    · refine (meets_declaration n hV hp fun w d hd => ?_).bind fun w d q hr hd => ?_
      · simpa using hA _ _ (.cons hd .nil)
      refine ((ih (hV.behind _) (hr.tables.trans hp) fun v ds hv => ?_).behind
        (T := fun v ds _ => IsDeclarations tokens v (d :: ds)) fun v ds q hs => .cons hd hs).bind
        fun v ds q hr hs => meets_pure fun _ => hs
      simpa using hA _ _ (.cons (declaration_symbols hd) hv)

theorem meets_wholeModule (n : Nat) (hV : Completable V) (hp : p.tables = .standard)
    (hA : Allows V (IsModule symbols)) :
    Meets p [] p (wholeModule n) V fun w m _ => IsModule tokens w m := by
  have hall : ∀ (a b c : Symbol) is imports ds declarations (d e : Symbol),
      a.1 = .keyword .moduleWord → b.1 = .identifier → c.1 = .mark .openCurly →
      IsImports symbols is imports → IsDeclarations symbols ds declarations →
      d.1 = .mark .closeCurly → e.1 = .eof → V (a :: b :: c :: is ++ ds ++ [d, e]) :=
    fun a b c is _ ds _ d e ha hb hc hi hd hd' he =>
      hA _ _ (.mk (g := symbols) ha hb hc hi hd hd' he)
  refine (meets_expect fun a ha => ?_).bind fun w a q hr hs => ?_
  · exact hV.typical [.identifier, .mark .openCurly, .mark .closeCurly, .eof]
      (hall a _ _ [] [] [] [] _ _ ha rfl rfl .nil .nil rfl rfl)
  obtain ⟨rfl, ha⟩ := hs
  refine (meets_expect fun b hb => ?_).bind fun w b q hr hs => ?_
  · exact hV.typical [.mark .openCurly, .mark .closeCurly, .eof]
      (hall _ b _ [] [] [] [] _ _ ha hb rfl .nil .nil rfl rfl)
  obtain ⟨rfl, hb⟩ := hs
  refine (meets_expect fun c hc => ?_).bind fun w c q hr hs => ?_
  · exact hV.typical [.mark .closeCurly, .eof]
      (hall _ _ c [] [] [] [] _ _ ha hb hc .nil .nil rfl rfl)
  obtain ⟨rfl, hc⟩ := hs
  have hsymbols := hall (symbol a) (symbol b) (symbol c)
  refine ((meets_imports n (hV.behind _) fun is imports hi => ?_).behind
    (T := fun w i _ => ∃ is, w = [a, b, c] ++ is ∧ IsImports tokens is i)
    fun w i _ hs => ⟨w, rfl, hs⟩).bind fun w imports q hr hs => ?_
  · apply hV.typical [.mark .closeCurly, .eof]
    simpa using hsymbols _ _ [] [] _ _ ha hb hc hi .nil rfl rfl
  obtain ⟨is, rfl, hi⟩ := hs
  have his := imports_symbols hi
  refine ((meets_declarations n (hV.behind _) (hr.tables.trans hp) fun ds _ hd => ?_).behind
    (T := fun w d _ => ∃ ds, w = [a, b, c] ++ is ++ ds ∧ IsDeclarations tokens ds d)
    fun w d _ hs => ⟨w, rfl, hs⟩).bind fun w declarations q hr hs => ?_
  · apply hV.typical [.mark .closeCurly, .eof]
    simpa using hsymbols _ _ _ _ _ _ ha hb hc his hd rfl rfl
  obtain ⟨ds, rfl, hd⟩ := hs
  have hds := declarations_symbols hd
  refine (meets_expect fun s hs => ?_).bind fun w d q hr hs => meets_previousEnd ?_
  · apply hV.typical [.eof]
    simpa using hsymbols _ _ _ _ s _ ha hb hc his hds hs rfl
  obtain ⟨rfl, hd'⟩ := hs
  refine (meets_expect fun s hs => ?_).bind fun w e q' hr' hs => meets_pure fun _ => ?_
  · simpa using hsymbols _ _ _ _ _ s ha hb hc his hds hd' hs
  obtain ⟨rfl, he⟩ := hs
  have hw : [a, b, c] ++ is ++ ds ++ [d] ++ [e] = a :: b :: c :: is ++ ds ++ [d, e] := by simp
  have hn := (show Reads p ([] ++ a :: (b :: c :: is ++ ds ++ [d])) _ from hr).around_cons
  rw [hw, ← hn]
  exact IsModule.mk (g := tokens) ha hb hc hi hd hd' he

end ModuleSyntax.Proofs.OutcomeModule
