import ModuleSyntax.Proofs.PrinterSpelled
import ModuleSyntax.Proofs.RunningStatement
import ModuleSyntax.Proofs.SameTokens
import ModuleSyntax.Proofs.Showing
import ModuleSyntax.Proofs.Termination

namespace ModuleSyntax.Proofs.TypeText

open Parse Motion Grammar Symbols Lexemes Entry Separation Steps Showing WellFormed Printer
open PrinterSpelled Calls Supply Acceptance Outcome OutcomeStatement PairedStatement Running
open RunningStatement Sessions Termination

inductive Brackets : Nat → List Token → Prop
  | nil : Brackets 0 []
  | cons {o c : Token} {n : Nat} {ts : List Token} (ho : o.kind = .mark .openBracket)
      (hc : c.kind = .mark .closeBracket) (h : Brackets n ts) : Brackets (n + 1) (o :: c :: ts)

/-- From `p` to `q` the token of a base type and all empty pairs of brackets behind it are taken,
and they are what the type is shown as. -/
structure Takes (p : Parser) (t : TypeRef Span) (us : List Token) (q : Parser) : Prop where
  reads : Reads p (p.current :: us) q
  shown : t.shown.toList = (p.current :: us).flatMap Token.lexeme
  base : IsType tokens [p.current] ⟨t.base, 0, p.current.span⟩
  brackets : Brackets t.depth us
  longest : ∀ n vs r, Brackets n vs → Reads p (p.current :: vs) r → n ≤ t.depth
  stops : q.current.kind ≠ .mark .openBracket

/-- A text that shows symbols with nothing between, before or after them. -/
inductive Solid : List Symbol → List Char → Prop
  | nil : Solid [] []
  | cons {s : Symbol} {ts : List Symbol} {text : List Char} (hs : Spelled s) (hk : s.1 ≠ .eof)
      (hp : Parted s.1 text) (h : Solid ts text) :
      Solid (s :: ts) (Token.written s.1 s.2 ++ text)

variable {α β : Type} {n k : Nat} {power : Power} {t u : TypeRef Span} {l : Lexer} {p q r : Parser}
  {ts us vs : List Token} {as : List Operation} {qs : List Parser} {ss : List Symbol}
  {text : List Char}

theorem shown_toList (t : TypeRef α) :
    t.shown.toList = t.base.shown.toList ++ (List.replicate t.depth ['[', ']']).flatten := by
  rw [TypeRef.shown, String.toList_append, String.toList_join, List.flatMap_replicate]
  rfl

theorem shown_array (base : TypeBase) (depth : Nat) (a b : α) :
    (⟨base, depth + 1, a⟩ : TypeRef α).shown.toList =
      (⟨base, depth, b⟩ : TypeRef α).shown.toList ++ ['[', ']'] := by
  simp only [shown_toList, List.replicate_succ', List.flatten_append, List.append_assoc,
    List.flatten_singleton]

theorem Brackets.append (h : Brackets n us) (hk : Brackets k vs) : Brackets (n + k) (us ++ vs) := by
  induction h with
  | nil => simpa using hk
  | @cons o c n ts ho hc h ih =>
    rw [Nat.add_right_comm]
    exact .cons ho hc ih

theorem brackets_of_type (h : IsType tokens ts t) : ∃ b us, ts = b :: us ∧
    IsType tokens [b] ⟨t.base, 0, b.span⟩ ∧ Brackets t.depth us := by
  induction h with
  | @primitive b p h => exact ⟨b, [], rfl, .primitive h, .nil⟩
  | @named b h => exact ⟨b, [], rfl, .named h, .nil⟩
  | array ht ho hc ih =>
    obtain ⟨b, us, rfl, hb, hs⟩ := ih
    exact ⟨b, _, List.cons_append, hb, hs.append (.cons ho hc .nil)⟩

/-- Where brackets stop, no more of them can be read. -/
theorem Brackets.le (h : Brackets n us) (hr : Reads p us q)
    (hq : q.current.kind ≠ .mark .openBracket) (hk : Brackets k vs) (hs : Reads p vs r) :
    k ≤ n := by
  induction h generalizing p k vs with
  | nil =>
    cases hr
    cases hk with
    | nil => exact Nat.le_refl 0
    | cons ho =>
      cases hs
      exact absurd ho hq
  | @cons o c n ts ho hc h ih =>
    cases hk with
    | nil => exact Nat.zero_le _
    | @cons o' c' k vs ho' hc' hk =>
      obtain ⟨m, hm, hr⟩ := @Reads.split _ _ [o, c] _ hr
      obtain ⟨m', hm', hs⟩ := @Reads.split _ _ [o', c'] _ hs
      obtain ⟨-, rfl⟩ := hm.unique hm' rfl
      exact Nat.succ_le_succ (ih hr hk hs)

theorem shown_of_type (h : IsType tokens ts t) (hs : ∀ u ∈ ts, Spelled (symbol u)) :
    t.shown.toList = ts.flatMap Token.lexeme := by
  induction h with
  | @primitive b p h =>
    obtain ⟨kind, value, span⟩ := b
    obtain rfl : kind = .keyword p.keyword := h
    obtain rfl : value = p.keyword.spelling := hs _ List.mem_cons_self
    simp [shown_toList, Token.lexeme, Token.written, TypeBase.shown]
  | @named b h =>
    obtain ⟨kind, value, span⟩ := b
    obtain rfl : kind = .identifier := h
    simp [shown_toList, Token.lexeme, Token.written, TypeBase.shown, tokens]
  | @array o c ts t ht ho hc ih =>
    obtain ⟨ok, ov, os⟩ := o
    obtain ⟨ck, cv, cs⟩ := c
    obtain rfl : ok = .mark .openBracket := ho
    obtain rfl : ck = .mark .closeBracket := hc
    obtain ⟨hts, hpair⟩ := List.forall_mem_append.1 hs
    obtain rfl : ov = "[" := hpair _ List.mem_cons_self
    obtain rfl : cv = "]" := hpair _ (List.mem_cons_of_mem _ List.mem_cons_self)
    rw [shown_array, ih hts, List.flatMap_append]
    simp [Token.lexeme, Token.written]

theorem typeChain_goes (hp : p.tables = .standard) (hw : power < .call)
    (hk : p.current.kind = .mark .openBracket) :
    typeChain (n + 1) t power p = (arrayType t >>= fun t' => typeChain n t' power) p := by
  rw [typeChain_succ, lookup_bind, hp, hk]
  change (if Power.call ≤ power then pure t else _ : Parse (TypeRef Span)) p = _
  rw [if_neg (Power.not_le.2 hw)]
  rfl

theorem typeChain_stops (hp : p.tables = .standard) (hk : p.current.kind ≠ .mark .openBracket) :
    typeChain (n + 1) t power p = some (.ok t, p) := by
  rw [typeChain_succ, lookup_bind, hp]
  cases ht : Tables.standard.typeTrailing p.current.kind with
  | none => rfl
  | some entry => exact absurd (typeTrailing_standard ht) hk

theorem moves_arrayType (t : TypeRef Span) : Moves (arrayType t) :=
  (paired_arrayType calls_sound (t := t) rfl).1

/-- Below the power of calls the power makes no difference to a type. -/
theorem typeChain_loosest (hp : p.tables = .standard) (hw : power < .call) :
    typeChain n t power p = typeChain n t .loosest p := by
  induction n generalizing t p with
  | zero => rfl
  | succ n ih =>
    by_cases hk : p.current.kind = .mark .openBracket
    · -- a round of the loop does not look at the power again
      rw [typeChain_goes hp hw hk, typeChain_goes hp (by decide) hk]
      refine bind_congr_of_ok fun t' q ha => ?_
      obtain ⟨us, hr⟩ := moves_arrayType t p _ _ ha
      exact ih (hr.tables.trans hp)
    · rw [typeChain_stops hp hk, typeChain_stops hp hk]

theorem typeChain_ends (hp : p.tables = .standard) (hw : power < .call)
    (h : typeChain n t power p = some (.ok u, q)) : q.current.kind ≠ .mark .openBracket := by
  induction n generalizing t p with
  | zero => cases h
  | succ n ih =>
    by_cases hk : p.current.kind = .mark .openBracket
    · rw [typeChain_goes hp hw hk] at h
      obtain ⟨t', m, ha, hm⟩ := ok_of_bind h
      obtain ⟨us, hr⟩ := moves_arrayType t p _ _ ha
      exact ih (hr.tables.trans hp) hm
    · rw [typeChain_stops hp hk] at h
      cases h
      exact hk

def base : Parse (TypeRef Span) := do
  match ← lookup Tables.typeLeading with
  | some rule => typeLeading rule
  | none => refuseEntry Tables.typeLeading

theorem typeRef_base (n : Nat) (power : Power) (p : Parser) :
    typeRef n power p = (base >>= fun t => typeChain n t power) p := by
  rw [typeRef_eq, base, bind_assoc, lookup_bind, lookup_bind]
  cases p.tables.typeLeading p.current.kind <;> rfl

theorem moves_base : Moves base := by
  intro p e q h
  rw [base, lookup_bind] at h
  cases hrule : p.tables.typeLeading p.current.kind with
  | none =>
    rw [hrule] at h
    exact moves_throw _ _ _ _ h
  | some rule =>
    rw [hrule] at h
    exact (paired_typeLeading calls_sound rule).1 _ _ _ h

theorem typeRef_loosest (hp : p.tables = .standard) (hw : power < .call) :
    typeRef n power p = typeRef n .loosest p := by
  rw [typeRef_base, typeRef_base]
  refine bind_congr_of_ok fun t q hb => ?_
  obtain ⟨us, hr⟩ := moves_base p _ _ hb
  exact typeChain_loosest (hr.tables.trans hp) hw

theorem typeRef_ends (hp : p.tables = .standard) (hw : power < .call)
    (h : typeRef n power p = some (.ok u, q)) : q.current.kind ≠ .mark .openBracket := by
  rw [typeRef_base] at h
  obtain ⟨t, m, hb, hm⟩ := ok_of_bind h
  obtain ⟨us, hr⟩ := moves_base p _ _ hb
  exact typeChain_ends (hr.tables.trans hp) hw hm

theorem type_of_typeRef (hp : p.tables = .standard) (h : typeRef n power p = some (.ok u, q)) :
    ∃ us, Reads p us q ∧ IsType tokens us u :=
  meets_typeRef n power completable_true hp (fun _ _ _ => trivial) (.refl p) _ _ h

theorem spelled_of_reads (hp : Ahead l p) (hr : Reads p us q) :
    ∀ u ∈ us, Spelled (symbol u) := by
  intro u hu
  have hmem : Except.ok u ∈ us.map (.ok : Token → Except Diagnostic Token) :=
    List.mem_map.2 ⟨u, hu, rfl⟩
  rw [(hp.reads hr).2] at hmem
  obtain ⟨n, -, hn⟩ := List.mem_map.1 hmem
  exact next_spelled (l := after n l) (Prod.ext hn rfl)

theorem current_of_reads {t : Token} (h : Reads p (t :: ts) q) : p.current = t := by
  cases h
  rfl

/-- A type that is read takes its base and all brackets that follow. -/
theorem takes_of_typeRef (ha : Ahead l p) (hp : p.tables = .standard) (hw : power < .call)
    (h : typeRef n power p = some (.ok t, q)) : ∃ us, Takes p t us q := by
  have hstops := typeRef_ends hp hw h
  obtain ⟨ts, hr, ht⟩ := type_of_typeRef hp h
  have hshown := shown_of_type ht (spelled_of_reads ha hr)
  obtain ⟨b, us, rfl, hb, hbrackets⟩ := brackets_of_type ht
  obtain ⟨m, hm, hus⟩ := @Reads.split _ _ [b] _ hr
  obtain rfl : p.current = b := current_of_reads hm
  refine ⟨us, hr, hshown, hb, hbrackets, fun n vs r hn hv => ?_, hstops⟩
  -- any other row of brackets is read from the same place, behind the base
  obtain ⟨m', hm', hvs⟩ := @Reads.split _ _ [p.current] _ hv
  obtain ⟨-, rfl⟩ := hm.unique hm' rfl
  exact hbrackets.le hus hstops hn hvs

theorem parted_brackets (k : Kind) (n : Nat) :
    Parted k (List.replicate n ['[', ']']).flatten := by
  cases n with
  | zero => exact fun _ hc => nomatch hc
  | succ n =>
    rintro c ⟨⟩
    cases k with
    | mark m => cases m <;> rfl
    | _ => rfl

theorem solid_brackets (n : Nat) :
    Solid (List.replicate n [mark .openBracket, mark .closeBracket]).flatten
      (List.replicate n ['[', ']']).flatten := by
  induction n with
  | zero => exact .nil
  | succ n ih =>
    rw [List.replicate_succ, List.replicate_succ, List.flatten_cons, List.flatten_cons]
    exact .cons rfl nofun (fun _ _ => rfl) (.cons rfl nofun (fun _ _ => rfl) ih)

theorem written_base (b : TypeBase) :
    Token.written (writeBase b).1 (writeBase b).2 = b.shown.toList := by
  cases b <;> rfl

theorem solid_shown {t : TypeRef α} (h : wellFormedType t) :
    Solid (writeType (t.mapNote fun _ => ())) t.shown.toList := by
  have hspelled : AllSpelled (writeType (t.mapNote fun _ => ())) := writeType_spelled h
  have hk : (writeBase t.base).1 ≠ .eof := by cases t.base <;> nofun
  rw [shown_toList, ← written_base]
  exact .cons (hspelled _ List.mem_cons_self) hk (parted_brackets _ _) (solid_brackets _)

theorem isName_base {t : TypeRef α} (h : wellFormedType t) : isName t.base.shown := by
  unfold wellFormedType at h
  cases hb : t.base with
  | primitive p => exact isName_spelling p.keyword
  | named text =>
    rw [hb] at h
    exact (spelled_name h).1

theorem notMem_shown {t : TypeRef α} (h : wellFormedType t) : '\n' ∉ t.shown.toList := by
  obtain ⟨c, cs, hbase, hc, hcs⟩ := word_of_isName (isName_base h)
  have hword : (c :: cs).all isWordPart := by
    rw [List.all_cons, wordPart_of_start hc, hcs]
    rfl
  rw [shown_toList, hbase]
  intro hn
  obtain hn | hn := List.mem_append.1 hn
  · exact absurd (List.all_eq_true.1 hword _ hn) (by decide)
  · obtain ⟨pair, hpair, hn⟩ := List.mem_flatten.1 hn
    rw [(List.mem_replicate.1 hpair).2] at hn
    exact absurd hn (by decide)

theorem stream_solid (h : Solid ss text) (hl : l.rest = text) :
    ∃ ts, l.stream = ⟨ts, .ok (.eof (l.position.afterText text))⟩ ∧ ts.map symbol = ss ∧
      (ts.head?.map fun t => t.span.start).getD l.position = l.position ∧
      (ts.getLast?.map fun t => t.span.stop).getD l.position = l.position.afterText text := by
  induction h generalizing l with
  | nil =>
    have hnext := next_end .nil hl
    have hfinal : Final l.next.1 := by
      rw [hnext]
      rintro t ⟨⟩
      rfl
    refine ⟨[], ?_, rfl, rfl, rfl⟩
    rw [stream_of_final hfinal, hnext]
  | @cons s ss text hs hk hp h ih =>
    obtain ⟨k, v⟩ := s
    have hnext := next_written (w := []) .nil hs hk hp hl
    simp only [List.nil_append, Position.afterText_nil] at hnext
    obtain ⟨ts, hstream, hmap, -, hlast⟩ := ih (skip_rest hl)
    rw [skip_position hl, ← Position.afterText_append] at hstream hlast
    refine ⟨⟨k, v, l.position, l.position.afterText (Token.written k v)⟩ :: ts, ?_,
      congrArg ((k, v) :: ·) hmap, rfl, ?_⟩
    · rw [stream_of_token hnext hk, hstream]
      rfl
    · rw [List.getLast?_cons, ← hlast]
      cases ts.getLast? <;> rfl

theorem start_of_ending (ts : List Token) (e : Token) :
    ∃ p, Parser.start ⟨ts, .ok e⟩ = .ok p := by
  cases ts <;> exact ⟨_, rfl⟩

/-- What is written for a type is read as that type. -/
theorem typeRef_of_spells {t : TypeRef Unit} (hp : p.tables = .standard) (hw : power < .call)
    (hs : Spells p (writeType t) q) (hq : q.current.kind ≠ .mark .openBracket) :
    ∃ n u, typeRef n power p = some (.ok u, q) ∧ typeSaid u = t := by
  obtain ⟨u, hu, n, hn⟩ := runs_typeAll (writeType_derives t) hp hs hq
  exact ⟨n, u, (typeRef_loosest hp hw).trans (hn n (Nat.le_refl n)), hu⟩

/-- The text that a type is shown as is read as that type, to its end. -/
theorem run_shown {t : TypeRef α} (hw : power < .call) (h : wellFormedType t)
    (file : Option String) : ∃ p q, Parser.start (Lexer.ofString t.shown file).stream = .ok p ∧
      Operation.run (.typeRef power) p = some (.ok (.typeRef ⟨t.base, t.depth, .start,
        Position.start.afterText t.shown.toList⟩), q) ∧
      q.current = .eof (Position.start.afterText t.shown.toList) := by
  obtain ⟨ts, hstream, hmap, hfirst, hlast⟩ :=
    stream_solid (solid_shown h) (l := Lexer.ofString t.shown file) rfl
  obtain ⟨p, hp⟩ := start_of_ending ts _
  rw [← hstream] at hp
  have hstandard := start_tables hp
  obtain ⟨r, hall⟩ := reads_all hp (congrArg TokenStream.ending hstream)
  rw [hstream] at hall
  obtain ⟨q, hr, hend⟩ := hall.split
  have hq : q.current = .eof (Position.start.afterText t.shown.toList) := current_of_reads hend
  obtain ⟨n, u, hrun, hu⟩ :=
    typeRef_of_spells hstandard hw ⟨ts, hr, hmap⟩ (by rw [hq]; nofun)
  obtain ⟨us, hus, htype⟩ := type_of_typeRef hstandard hrun
  have hne : ts ≠ [] := by
    rintro rfl
    cases hmap
  have hnote : u.note = ⟨.start, Position.start.afterText t.shown.toList⟩ := by
    rw [show u.note = around us from type_note htype, hus.around_eq (type_ne_nil htype),
      ← hr.around_eq hne, around]
    exact congrArg₂ Span.mk hfirst hlast
  refine ⟨p, q, hp, ?_, hq⟩
  have hperform : perform n (.typeRef power) p = some (.ok (.typeRef u), q) := by
    rw [perform, map_apply, hrun]
    rfl
  rw [run_of_performs (start_ready (sourced_stream _) hp) ⟨n, hperform⟩]
  obtain ⟨base, depth, note⟩ := u
  cases hu
  cases hnote
  rfl

theorem ahead_of_session (hp : Ahead l p) (h : Session p as qs) :
    ∀ q ∈ p :: qs, ∃ m, Ahead m q := by
  induction h generalizing l with
  | nil p => exact List.forall_mem_singleton.2 ⟨l, hp⟩
  | cons ha hs ih =>
    obtain ⟨ts, ht⟩ := ha.reads
    obtain ⟨hq, -⟩ := hp.reads ht
    exact List.forall_mem_cons.2 ⟨⟨l, hp⟩, ih ⟨hq.current, hq.upcoming⟩⟩

/-- Below the power of calls, showing types and reading them are inverse. What a type is shown as
is read as that type, from its start to its end. And wherever a reader has brought the parser, a
type that it reads is shown as the tokens that were taken for it, which are a base and all pairs of
brackets behind that. -/
theorem typeRef_inverts (hw : power < .call) :
    (∀ (t : TypeRef Span) (file : Option String), wellFormedType t →
      t.shown.length < UInt32.size →
      ∃ p q stop, Parser.start (Lexer.ofString t.shown file).stream = .ok p ∧
        Operation.run (.typeRef power) p =
          some (.ok (.typeRef ⟨t.base, t.depth, .start, stop⟩), q) ∧
        stop.line = 0 ∧ stop.column.toNat = t.shown.length ∧ q.current = .eof stop) ∧
    ∀ l p q t, Ahead l p → p.tables = .standard →
      Performs (.typeRef power) p (.ok (.typeRef t)) q → ∃ us, Takes p t us q := by
  refine ⟨fun t file ht hl => ?_, fun l p q t hp htables ⟨n, hrun⟩ => ?_⟩
  · obtain ⟨p, q, hp, hrun, hq⟩ := run_shown hw ht file
    refine ⟨p, q, _, hp, hrun, ?_, ?_, hq⟩
    · rw [SameTokens.afterText_onLine (notMem_shown ht)]
      rfl
    · rw [SameTokens.afterText_onLine (notMem_shown ht)]
      simp only [Position.start, UInt32.zero_add, Nat.toUInt32_eq, String.length_toList]
      exact UInt32.toNat_ofNat_of_lt' hl
  · obtain ⟨u, hread, hu⟩ := ok_of_map hrun
    cases hu
    exact takes_of_typeRef hp htables hw hread

def beforeArrays : Parser where
  current := .onLine (.keyword .intWord) ⟨0, 2⟩ "int"
  upcoming := ⟨[.onLine (.mark .openBracket) ⟨0, 5⟩ "[", .onLine (.mark .closeBracket) ⟨0, 6⟩ "]",
    .onLine (.mark .openBracket) ⟨0, 7⟩ "[", .onLine (.mark .closeBracket) ⟨0, 8⟩ "]",
    .onLine .identifier ⟨0, 10⟩ "x"], .ok (.eof ⟨0, 11⟩)⟩
  previousEnd := ⟨0, 1⟩
  tables := .standard

def beforeSemicolon : Parser where
  current := .onLine (.mark .semicolon) ⟨0, 0⟩ ";"
  upcoming := beforeArrays.upcoming.push beforeArrays.current
  previousEnd := .start
  tables := .standard

theorem typeRef_inverts_arrays :
    (∃ p q stop, Parser.start (Lexer.ofString "Class1[][]" none).stream = .ok p ∧
      Operation.run (.typeRef .unary) p =
        some (.ok (.typeRef ⟨.named "Class1", 2, .start, stop⟩), q) ∧
      stop.line = 0 ∧ stop.column.toNat = 10 ∧ q.current = .eof stop) ∧
    ∃ q us, Parser.start (Lexer.ofString "; int[][] x" none).stream = .ok beforeSemicolon ∧
      Session beforeSemicolon [.advance] [beforeArrays] ∧
      Performs (.typeRef .unary) beforeArrays
        (.ok (.typeRef ⟨.primitive .int, 2, ⟨0, 2⟩, ⟨0, 9⟩⟩)) q ∧
      Takes beforeArrays ⟨.primitive .int, 2, ⟨0, 2⟩, ⟨0, 9⟩⟩ us q := by
  have hw : Power.unary < .call := by decide
  obtain ⟨hshown, htaken⟩ := typeRef_inverts hw
  have hl : Parser.start (Lexer.ofString "; int[][] x" none).stream = .ok beforeSemicolon := rfl
  have hs : Session beforeSemicolon [.advance] [beforeArrays] := .cons ⟨0, rfl⟩ (.nil _)
  obtain ⟨m, hm⟩ := ahead_of_session (ahead_of_start hl) hs _
    (List.mem_cons_of_mem _ List.mem_cons_self)
  have hrun : Performs (.typeRef .unary) beforeArrays
      (.ok (.typeRef ⟨.primitive .int, 2, ⟨0, 2⟩, ⟨0, 9⟩⟩)) _ := ⟨3, rfl⟩
  obtain ⟨us, hus⟩ := htaken m _ _ _ hm rfl hrun
  exact ⟨hshown ⟨.named "Class1", 2, .start, .start⟩ none (by decide) (by decide),
    _, us, hl, hs, hrun, hus⟩

end ModuleSyntax.Proofs.TypeText
