import ModuleSyntax.Proofs.Grammar

namespace ModuleSyntax.Proofs.ModuleEnd

open Grammar

variable {τ α : Type} {g : Terminals τ α}

def Inner (g : Terminals τ α) (ts : List τ) : Prop := ∀ t ∈ ts, g.kind t ≠ .eof

theorem inner_nil : Inner g [] := fun _ h => nomatch h

theorem inner_cons {t : τ} {k : Kind} {ts : List τ} (ht : g.kind t = k) (hk : k ≠ .eof)
    (hs : Inner g ts) : Inner g (t :: ts) :=
  List.forall_mem_cons.2 ⟨ht ▸ hk, hs⟩

theorem Inner.append {ts us : List τ} (ht : Inner g ts) (hu : Inner g us) : Inner g (ts ++ us) :=
  List.forall_mem_append.2 ⟨ht, hu⟩

theorem type_inner {ts : List τ} {t : TypeRef α} (h : IsType g ts t) : Inner g ts := by
  induction h with
  | primitive h => exact inner_cons h Kind.noConfusion inner_nil
  | named h => exact inner_cons h Kind.noConfusion inner_nil
  | array ht ho hc ih =>
    exact ih.append (inner_cons ho Kind.noConfusion (inner_cons hc Kind.noConfusion inner_nil))

mutual

theorem expression_inner {l : Power} {ts : List τ} {e : Expression α} :
    IsExpression g l ts e → Inner g ts
  | .int h | .string h | .yes h | .no h | .symbol h => inner_cons h Kind.noConfusion inner_nil
  | .group ho he hc => inner_cons ho Kind.noConfusion
      ((expression_inner he).append (inner_cons hc Kind.noConfusion inner_nil))
  | .array ho hs => inner_cons ho Kind.noConfusion (closed_inner hs)
  | .call hf ho hs =>
    (expression_inner hf).append (inner_cons ho Kind.noConfusion (closed_inner hs))
  | .index hb ho he hc =>
    ((expression_inner hb).append (inner_cons ho Kind.noConfusion (expression_inner he))).append
      (inner_cons hc Kind.noConfusion inner_nil)
  | .emptyIndex hb ho hc => (expression_inner hb).append
      (inner_cons ho Kind.noConfusion (inner_cons hc Kind.noConfusion inner_nil))
  | .negation ho he => inner_cons ho Kind.noConfusion (expression_inner he)
  | .binary ha ho hb =>
    (expression_inner ha).append (inner_cons ho Kind.noConfusion (expression_inner hb))
  | .assignment ha _ ho hb =>
    (expression_inner ha).append (inner_cons ho Kind.noConfusion (expression_inner hb))
  | .looser _ he => expression_inner he

theorem items_inner {ts : List τ} {es : List (Expression α)} : IsItems g ts es → Inner g ts
  | .one he => expression_inner he
  | .more he hc hs => (expression_inner he).append (inner_cons hc Kind.noConfusion (items_inner hs))

theorem closed_inner {close : Mark} {ts : List τ} {es : List (Expression α)} :
    IsClosed g close ts es → Inner g ts
  | .none hc => inner_cons hc Kind.noConfusion inner_nil
  | .some hs hc => (items_inner hs).append (inner_cons hc Kind.noConfusion inner_nil)

end

theorem condition_inner {ts : List τ} {e : Expression α} (h : IsCondition g ts e) :
    Inner g ts := by
  cases h with
  | mk ho he hc =>
    exact inner_cons ho Kind.noConfusion
      ((expression_inner he).append (inner_cons hc Kind.noConfusion inner_nil))

mutual

theorem statement_inner {ts : List τ} {s : Statement α} : IsStatement g ts s → Inner g ts
  | .block hs => block_inner hs
  | .whileLoop hw hc hs =>
    inner_cons hw Kind.noConfusion ((condition_inner hc).append (block_inner hs))
  | .ifThen hw hc hs =>
    inner_cons hw Kind.noConfusion ((condition_inner hc).append (statement_inner hs))
  | .ifElse hw hc hs _ he ht =>
    (inner_cons hw Kind.noConfusion ((condition_inner hc).append (statement_inner hs))).append
      (inner_cons he Kind.noConfusion (statement_inner ht))
  | .breakLoop hw hc | .returnNothing hw hc =>
    inner_cons hw Kind.noConfusion (inner_cons hc Kind.noConfusion inner_nil)
  | .returnValue hw he hc => inner_cons hw Kind.noConfusion
      ((expression_inner he).append (inner_cons hc Kind.noConfusion inner_nil))
  | .variableDecl ht hn hc => (type_inner ht).append
      (inner_cons hn Kind.noConfusion (inner_cons hc Kind.noConfusion inner_nil))
  | .evaluation he hc => (expression_inner he).append (inner_cons hc Kind.noConfusion inner_nil)

theorem statements_inner {ts : List τ} {ss : List (Statement α)} :
    IsStatements g ts ss → Inner g ts
  | .nil => inner_nil
  | .cons hs hr => (statement_inner hs).append (statements_inner hr)

theorem block_inner {ts : List τ} {ss : List (Statement α)} : IsBlock g ts ss → Inner g ts
  | .mk ho hs hc => inner_cons ho Kind.noConfusion
      ((statements_inner hs).append (inner_cons hc Kind.noConfusion inner_nil))

end

theorem parameters_inner {ts : List τ} {ps : List (Parameter α)} (h : IsParameters g ts ps) :
    Inner g ts := by
  have hone : ∀ {ts : List τ} {p : Parameter α}, IsParameter g ts p → Inner g ts := fun h => by
    cases h with
    | mk ht hn => exact (type_inner ht).append (inner_cons hn Kind.noConfusion inner_nil)
  induction h with
  | one hp => exact hone hp
  | more hp hc hs ih => exact (hone hp).append (inner_cons hc Kind.noConfusion ih)

theorem signature_inner {ts : List τ} {ps : List (Parameter α)} (h : IsSignature g ts ps) :
    Inner g ts := by
  cases h with
  | none hc => exact inner_cons hc Kind.noConfusion inner_nil
  | some hs hc => exact (parameters_inner hs).append (inner_cons hc Kind.noConfusion inner_nil)

theorem visibility_inner {ts : List τ} {v : Bool} (h : IsVisibility g ts v) : Inner g ts := by
  cases h with
  | inside => exact inner_nil
  | outside h => exact inner_cons h Kind.noConfusion inner_nil

theorem declaration_inner {ts : List τ} {d : Declaration α} (h : IsDeclaration g ts d) :
    Inner g ts := by
  cases h with
  | typeAlias hv hw hn ho hs hc =>
    exact (visibility_inner hv).append (inner_cons hw Kind.noConfusion (inner_cons hn
      Kind.noConfusion (inner_cons ho Kind.noConfusion (inner_cons hs Kind.noConfusion
        (inner_cons hc Kind.noConfusion inner_nil)))))
  | field hv ht hn hc =>
    exact ((visibility_inner hv).append (type_inner ht)).append
      (inner_cons hn Kind.noConfusion (inner_cons hc Kind.noConfusion inner_nil))
  | function hv ht hn ho hp hb =>
    exact (((visibility_inner hv).append (type_inner ht)).append (inner_cons hn Kind.noConfusion
      (inner_cons ho Kind.noConfusion (signature_inner hp)))).append (block_inner hb)

theorem declarations_inner {ts : List τ} {ds : List (Declaration α)} (h : IsDeclarations g ts ds) :
    Inner g ts := by
  induction h with
  | nil => exact inner_nil
  | cons hd hr ih => exact (declaration_inner hd).append ih

theorem imports_inner {ts : List τ} {is : List (Import α)} (h : IsImports g ts is) :
    Inner g ts := by
  induction h with
  | nil => exact inner_nil
  | cons hw hn hc hr ih =>
    exact inner_cons hw Kind.noConfusion (inner_cons hn Kind.noConfusion
      (inner_cons hc Kind.noConfusion ih))

/-- A module has one end, behind everything else. -/
theorem module_end {ts : List τ} {m : Module α} (h : IsModule g ts m) :
    ∃ us e, ts = us ++ [e] ∧ Inner g us ∧ g.kind e = .eof := by
  cases h with
  | @mk w n o c e is ds imports declarations hw hn ho hi hd hc he =>
    refine ⟨w :: n :: o :: is ++ ds ++ [c], e, by simp, ?_, he⟩
    exact (Inner.append (inner_cons hw Kind.noConfusion (inner_cons hn Kind.noConfusion
      (inner_cons ho Kind.noConfusion (imports_inner hi)))) (declarations_inner hd)).append
        (inner_cons hc Kind.noConfusion inner_nil)

end ModuleSyntax.Proofs.ModuleEnd
