import ModuleSyntax.Proofs.Symbols

namespace ModuleSyntax.Proofs.Lifting

open Grammar Notes Symbols

variable {σ τ α β : Type} {g : Terminals τ α} {f : σ → τ} {note : List σ → β} {φ : β → α}

/-- The grammar of what stands for terminals, with notes of its own. -/
def along (g : Terminals τ α) (f : σ → τ) (note : List σ → β) : Terminals σ β where
  kind s := g.kind (f s)
  text s := g.text (f s)
  note := note

/-- The notes of what stands for terminals are taken to the notes of these. -/
def Carried (g : Terminals τ α) (f : σ → τ) (note : List σ → β) (φ : β → α) : Prop :=
  ∀ us, us ≠ [] → φ (note us) = g.note (us.map f)

theorem Carried.apply (h : Carried g f note φ) {us : List σ} (hn : us ≠ []) :
    φ (note us) = g.note (us.map f) := h us hn

section

variable {us : List σ} {ts vs : List τ} {o c : τ}

theorem split_at (h : us.map f = ts ++ o :: vs) :
    ∃ as b cs, us = as ++ b :: cs ∧ as.map f = ts ∧ f b = o ∧ cs.map f = vs := by
  obtain ⟨as, bs, rfl, has, hbs⟩ := List.map_eq_append_iff.1 h
  obtain ⟨b, cs, rfl, hb, hcs⟩ := List.map_eq_cons_iff.1 hbs
  exact ⟨as, b, cs, rfl, has, hb, hcs⟩

theorem split_last (h : us.map f = ts ++ [c]) :
    ∃ as b, us = as ++ [b] ∧ as.map f = ts ∧ f b = c := by
  obtain ⟨as, b, cs, rfl, has, hb, hcs⟩ := split_at h
  obtain rfl := List.map_eq_nil_iff.1 hcs
  exact ⟨as, b, rfl, has, hb⟩

theorem split_two (h : us.map f = ts ++ [o, c]) :
    ∃ as a b, us = as ++ [a, b] ∧ as.map f = ts ∧ f a = o ∧ f b = c := by
  obtain ⟨as, a, bs, rfl, has, ha, hbs⟩ := split_at h
  obtain ⟨b, rfl, hb⟩ := List.map_eq_singleton_iff.1 hbs
  exact ⟨as, a, b, rfl, has, ha, hb⟩

theorem split_pair (h : us.map f = [o, c]) : ∃ a b, us = [a, b] ∧ f a = o ∧ f b = c := by
  obtain ⟨a, bs, rfl, ha, hbs⟩ := List.map_eq_cons_iff.1 h
  obtain ⟨b, rfl, hb⟩ := List.map_eq_singleton_iff.1 hbs
  exact ⟨a, b, rfl, ha, hb⟩

theorem split_head {n : τ} (h : us.map f = o :: n :: c :: ts) :
    ∃ a b d ds, us = a :: b :: d :: ds ∧ f a = o ∧ f b = n ∧ f d = c ∧ ds.map f = ts := by
  obtain ⟨a, bs, rfl, ha, hbs⟩ := List.map_eq_cons_iff.1 h
  obtain ⟨b, cs, rfl, hb, hcs⟩ := List.map_eq_cons_iff.1 hbs
  obtain ⟨d, ds, rfl, hd, hds⟩ := List.map_eq_cons_iff.1 hcs
  exact ⟨a, b, d, ds, rfl, ha, hb, hd, hds⟩

theorem split_around (h : us.map f = o :: ts ++ [c]) :
    ∃ a bs b, us = a :: bs ++ [b] ∧ f a = o ∧ bs.map f = ts ∧ f b = c := by
  obtain ⟨as, b, rfl, has, hb⟩ := split_last h
  obtain ⟨a, bs, rfl, ha, hbs⟩ := List.map_eq_cons_iff.1 has
  exact ⟨a, bs, b, rfl, ha, hbs, hb⟩

end

theorem type_lift (hφ : Carried g f note φ) {ts : List τ} {t : TypeRef α} (h : IsType g ts t)
    {us : List σ} (hu : us.map f = ts) :
    ∃ t', IsType (along g f note) us t' ∧ t'.mapNote φ = t := by
  induction h generalizing us with
  | primitive hk =>
    obtain ⟨u, rfl, rfl⟩ := List.map_eq_singleton_iff.1 hu
    exact ⟨_, .primitive (g := along g f note) hk, by simp [TypeRef.mapNote, along, hφ.apply]⟩
  | named hk =>
    obtain ⟨u, rfl, rfl⟩ := List.map_eq_singleton_iff.1 hu
    exact ⟨_, .named (g := along g f note) hk, by simp [TypeRef.mapNote, along, hφ.apply]⟩
  | array ht ho hc ih =>
    obtain ⟨us, o, c, rfl, hus, rfl, rfl⟩ := split_two hu
    obtain ⟨t, ht', rfl⟩ := ih hus
    exact ⟨_, .array (g := along g f note) ht' ho hc,
      by simp [TypeRef.mapNote, along, hφ.apply, hus]⟩

mutual

/-- What derives from the images of terminals derives from them. -/
theorem expression_lift (hφ : Carried g f note φ) {l : Power} {ts : List τ} {e : Expression α} :
    IsExpression g l ts e → ∀ {us : List σ}, us.map f = ts →
      ∃ e', IsExpression (along g f note) l us e' ∧ e'.mapNote φ = e
  | .int h, us, hu => by
    obtain ⟨u, rfl, rfl⟩ := List.map_eq_singleton_iff.1 hu
    exact ⟨_, .int (g := along g f note) h, by simp [Expression.mapNote, along, hφ.apply]⟩
  | .string h, us, hu => by
    obtain ⟨u, rfl, rfl⟩ := List.map_eq_singleton_iff.1 hu
    exact ⟨_, .string (g := along g f note) h, by simp [Expression.mapNote, along, hφ.apply]⟩
  | .yes h, us, hu => by
    obtain ⟨u, rfl, rfl⟩ := List.map_eq_singleton_iff.1 hu
    exact ⟨_, .yes (g := along g f note) h, by simp [Expression.mapNote, along, hφ.apply]⟩
  | .no h, us, hu => by
    obtain ⟨u, rfl, rfl⟩ := List.map_eq_singleton_iff.1 hu
    exact ⟨_, .no (g := along g f note) h, by simp [Expression.mapNote, along, hφ.apply]⟩
  | .symbol h, us, hu => by
    obtain ⟨u, rfl, rfl⟩ := List.map_eq_singleton_iff.1 hu
    exact ⟨_, .symbol (g := along g f note) h, by simp [Expression.mapNote, along, hφ.apply]⟩
  | .group ho he hc, us, hu => by
    obtain ⟨o, us, c, rfl, rfl, hus, rfl⟩ := split_around hu
    obtain ⟨e, he', rfl⟩ := expression_lift hφ he hus
    exact ⟨_, .group (g := along g f note) ho he' hc,
      by simp [mapNote_withNote, along, hφ.apply, hus]⟩
  | .array ho hs, us, hu => by
    obtain ⟨o, us, rfl, rfl, hus⟩ := List.map_eq_cons_iff.1 hu
    obtain ⟨es, hs', rfl⟩ := closed_lift hφ hs hus
    exact ⟨_, .array (g := along g f note) ho hs',
      by simp [Expression.mapNote, along, hφ.apply, hus]⟩
  | .call hf ho hs, us, hu => by
    obtain ⟨us, o, vs, rfl, hus, rfl, hvs⟩ := split_at hu
    obtain ⟨e, hf', rfl⟩ := expression_lift hφ hf hus
    obtain ⟨es, hs', rfl⟩ := closed_lift hφ hs hvs
    exact ⟨_, .call (g := along g f note) hf' ho hs',
      by simp [Expression.mapNote, along, hφ.apply, hus, hvs]⟩
  | .index hb ho he hc, us, hu => by
    obtain ⟨front, c, rfl, hfront, rfl⟩ := split_last hu
    obtain ⟨us, o, vs, rfl, hus, rfl, hvs⟩ := split_at hfront
    obtain ⟨b, hb', rfl⟩ := expression_lift hφ hb hus
    obtain ⟨e, he', rfl⟩ := expression_lift hφ he hvs
    exact ⟨_, .index (g := along g f note) hb' ho he' hc,
      by simp [Expression.mapNote, along, hφ.apply, hus, hvs]⟩
  | .emptyIndex hb ho hc, us, hu => by
    obtain ⟨us, o, c, rfl, hus, rfl, rfl⟩ := split_two hu
    obtain ⟨b, hb', rfl⟩ := expression_lift hφ hb hus
    exact ⟨_, .emptyIndex (g := along g f note) hb' ho hc,
      by simp [Expression.mapNote, along, hφ.apply, hus]⟩
  | .negation ho he, us, hu => by
    obtain ⟨o, us, rfl, rfl, hus⟩ := List.map_eq_cons_iff.1 hu
    obtain ⟨e, he', rfl⟩ := expression_lift hφ he hus
    exact ⟨_, .negation (g := along g f note) ho he',
      by simp [Expression.mapNote, along, hφ.apply, hus]⟩
  | .binary ha ho hb, us, hu => by
    obtain ⟨us, o, vs, rfl, hus, rfl, hvs⟩ := split_at hu
    obtain ⟨a, ha', rfl⟩ := expression_lift hφ ha hus
    obtain ⟨b, hb', rfl⟩ := expression_lift hφ hb hvs
    exact ⟨_, .binary (g := along g f note) ha' ho hb',
      by simp [Expression.mapNote, along, hφ.apply, hus, hvs]⟩
  | .assignment ha ht ho hb, us, hu => by
    obtain ⟨us, o, vs, rfl, hus, rfl, hvs⟩ := split_at hu
    obtain ⟨a, ha', rfl⟩ := expression_lift hφ ha hus
    obtain ⟨b, hb', rfl⟩ := expression_lift hφ hb hvs
    exact ⟨_, .assignment (g := along g f note) ha' (assignable_mapNote.1 ht) ho hb',
      by simp [Expression.mapNote, along, hφ.apply, hus, hvs]⟩
  | .looser hl he, us, hu => by
    obtain ⟨e, he', rfl⟩ := expression_lift hφ he hu
    exact ⟨e, .looser hl he', rfl⟩

theorem items_lift (hφ : Carried g f note φ) {ts : List τ} {es : List (Expression α)} :
    IsItems g ts es → ∀ {us : List σ}, us.map f = ts →
      ∃ es', IsItems (along g f note) us es' ∧ es'.map (Expression.mapNote φ) = es
  | .one he, us, hu => by
    obtain ⟨e, he', rfl⟩ := expression_lift hφ he hu
    exact ⟨[e], .one he', rfl⟩
  | .more he hc hs, us, hu => by
    obtain ⟨us, c, vs, rfl, hus, rfl, hvs⟩ := split_at hu
    obtain ⟨e, he', rfl⟩ := expression_lift hφ he hus
    obtain ⟨es, hs', rfl⟩ := items_lift hφ hs hvs
    exact ⟨e :: es, .more he' hc hs', rfl⟩

theorem closed_lift (hφ : Carried g f note φ) {close : Mark} {ts : List τ}
    {es : List (Expression α)} :
    IsClosed g close ts es → ∀ {us : List σ}, us.map f = ts →
      ∃ es', IsClosed (along g f note) close us es' ∧ es'.map (Expression.mapNote φ) = es
  | .none hc, us, hu => by
    obtain ⟨c, rfl, rfl⟩ := List.map_eq_singleton_iff.1 hu
    exact ⟨[], .none (g := along g f note) hc, rfl⟩
  | .some hs hc, us, hu => by
    obtain ⟨us, c, rfl, hus, rfl⟩ := split_last hu
    obtain ⟨es, hs', rfl⟩ := items_lift hφ hs hus
    exact ⟨es, .some hs' hc, rfl⟩

end

theorem condition_lift (hφ : Carried g f note φ) {ts : List τ} {e : Expression α}
    (h : IsCondition g ts e) {us : List σ} (hu : us.map f = ts) :
    ∃ e', IsCondition (along g f note) us e' ∧ e'.mapNote φ = e := by
  cases h with
  | mk ho he hc =>
    obtain ⟨o, us, c, rfl, rfl, hus, rfl⟩ := split_around hu
    obtain ⟨e, he', rfl⟩ := expression_lift hφ he hus
    exact ⟨e, .mk (g := along g f note) ho he' hc, rfl⟩

mutual

theorem statement_lift (hφ : Carried g f note φ) {ts : List τ} {s : Statement α} :
    IsStatement g ts s → ∀ {us : List σ}, us.map f = ts →
      ∃ s', IsStatement (along g f note) us s' ∧ s'.mapNote φ = s
  | .block hs, us, hu => by
    obtain ⟨ss, hs', hne, rfl⟩ := block_lift hφ hs hu
    exact ⟨_, .block hs', by simp [Statement.mapNote, along, hφ.apply, hne, hu]⟩
  | .whileLoop hw hc hs, us, hu => by
    obtain ⟨front, vs, rfl, hfront, hvs⟩ := List.map_eq_append_iff.1 hu
    obtain ⟨w, us, rfl, rfl, hus⟩ := List.map_eq_cons_iff.1 hfront
    obtain ⟨c, hc', rfl⟩ := condition_lift hφ hc hus
    obtain ⟨ss, hs', hne, rfl⟩ := block_lift hφ hs hvs
    exact ⟨_, .whileLoop (g := along g f note) hw hc' hs',
      by simp [Statement.mapNote, along, hφ.apply, hne, hus, hvs]⟩
  | .ifThen hw hc hs, us, hu => by
    obtain ⟨front, vs, rfl, hfront, hvs⟩ := List.map_eq_append_iff.1 hu
    obtain ⟨w, us, rfl, rfl, hus⟩ := List.map_eq_cons_iff.1 hfront
    obtain ⟨c, hc', rfl⟩ := condition_lift hφ hc hus
    obtain ⟨s, hs', rfl⟩ := statement_lift hφ hs hvs
    exact ⟨_, .ifThen (g := along g f note) hw hc' hs',
      by simp [Statement.mapNote, along, hφ.apply, hus, hvs]⟩
  | .ifElse hw hc hs ho he ht, us, hu => by
    obtain ⟨front, e, ws, rfl, hfront, rfl, hws⟩ := split_at hu
    obtain ⟨front, vs, rfl, hfront', hvs⟩ := List.map_eq_append_iff.1 hfront
    obtain ⟨w, us, rfl, rfl, hus⟩ := List.map_eq_cons_iff.1 hfront'
    obtain ⟨c, hc', rfl⟩ := condition_lift hφ hc hus
    obtain ⟨s, hs', rfl⟩ := statement_lift hφ hs hvs
    obtain ⟨t, ht', rfl⟩ := statement_lift hφ ht hws
    rw [endsOpen_mapNote] at ho
    exact ⟨_, .ifElse (g := along g f note) hw hc' hs' ho he ht',
      by simp [Statement.mapNote, along, hφ.apply, hus, hvs, hws]⟩
  | .breakLoop hw hc, us, hu => by
    obtain ⟨w, c, rfl, rfl, rfl⟩ := split_pair hu
    exact ⟨_, .breakLoop (g := along g f note) hw hc, by simp [Statement.mapNote, along, hφ.apply]⟩
  | .returnNothing hw hc, us, hu => by
    obtain ⟨w, c, rfl, rfl, rfl⟩ := split_pair hu
    exact ⟨_, .returnNothing (g := along g f note) hw hc,
      by simp [Statement.mapNote, along, hφ.apply]⟩
  | .returnValue hw he hc, us, hu => by
    obtain ⟨w, us, c, rfl, rfl, hus, rfl⟩ := split_around hu
    obtain ⟨e, he', rfl⟩ := expression_lift hφ he hus
    exact ⟨_, .returnValue (g := along g f note) hw he' hc,
      by simp [Statement.mapNote, along, hφ.apply, hus]⟩
  | .variableDecl ht hn hc, us, hu => by
    obtain ⟨us, n, c, rfl, hus, rfl, rfl⟩ := split_two hu
    obtain ⟨t, ht', rfl⟩ := type_lift hφ ht hus
    exact ⟨_, .variableDecl (g := along g f note) ht' hn hc,
      by simp [Statement.mapNote, along, hφ.apply, hus]⟩
  | .evaluation he hc, us, hu => by
    obtain ⟨us, c, rfl, hus, rfl⟩ := split_last hu
    obtain ⟨e, he', rfl⟩ := expression_lift hφ he hus
    exact ⟨_, .evaluation (g := along g f note) he' hc,
      by simp [Statement.mapNote, along, hφ.apply, hus]⟩

theorem statements_lift (hφ : Carried g f note φ) {ts : List τ} {ss : List (Statement α)} :
    IsStatements g ts ss → ∀ {us : List σ}, us.map f = ts →
      ∃ ss', IsStatements (along g f note) us ss' ∧ ss'.map (Statement.mapNote φ) = ss
  | .nil, us, hu => by
    obtain rfl := List.map_eq_nil_iff.1 hu
    exact ⟨[], .nil, rfl⟩
  | .cons hs hr, us, hu => by
    obtain ⟨us, vs, rfl, hus, hvs⟩ := List.map_eq_append_iff.1 hu
    obtain ⟨s, hs', rfl⟩ := statement_lift hφ hs hus
    obtain ⟨ss, hr', rfl⟩ := statements_lift hφ hr hvs
    exact ⟨s :: ss, .cons hs' hr', rfl⟩

theorem block_lift (hφ : Carried g f note φ) {ts : List τ} {ss : List (Statement α)} :
    IsBlock g ts ss → ∀ {us : List σ}, us.map f = ts →
      ∃ ss', IsBlock (along g f note) us ss' ∧ us ≠ [] ∧ ss'.map (Statement.mapNote φ) = ss
  | .mk ho hs hc, us, hu => by
    obtain ⟨o, us, c, rfl, rfl, hus, rfl⟩ := split_around hu
    obtain ⟨ss, hs', rfl⟩ := statements_lift hφ hs hus
    exact ⟨ss, .mk (g := along g f note) ho hs' hc, by simp, rfl⟩

end

theorem parameter_lift (hφ : Carried g f note φ) {ts : List τ} {p : Parameter α}
    (h : IsParameter g ts p) {us : List σ} (hu : us.map f = ts) :
    ∃ p', IsParameter (along g f note) us p' ∧ p'.mapNote φ = p := by
  cases h with
  | mk ht hn =>
    obtain ⟨us, n, rfl, hus, rfl⟩ := split_last hu
    obtain ⟨t, ht', rfl⟩ := type_lift hφ ht hus
    exact ⟨_, .mk (g := along g f note) ht' hn, by simp [Parameter.mapNote, along, hφ.apply, hus]⟩

theorem parameters_lift (hφ : Carried g f note φ) {ts : List τ} {ps : List (Parameter α)}
    (h : IsParameters g ts ps) {us : List σ} (hu : us.map f = ts) :
    ∃ ps', IsParameters (along g f note) us ps' ∧ ps'.map (Parameter.mapNote φ) = ps := by
  induction h generalizing us with
  | one hp =>
    obtain ⟨p, hp', rfl⟩ := parameter_lift hφ hp hu
    exact ⟨[p], .one hp', rfl⟩
  | more hp hc hs ih =>
    obtain ⟨us, c, vs, rfl, hus, rfl, hvs⟩ := split_at hu
    obtain ⟨p, hp', rfl⟩ := parameter_lift hφ hp hus
    obtain ⟨ps, hs', rfl⟩ := ih hvs
    exact ⟨p :: ps, .more hp' hc hs', rfl⟩

theorem signature_lift (hφ : Carried g f note φ) {ts : List τ} {ps : List (Parameter α)}
    (h : IsSignature g ts ps) {us : List σ} (hu : us.map f = ts) :
    ∃ ps', IsSignature (along g f note) us ps' ∧ ps'.map (Parameter.mapNote φ) = ps := by
  cases h with
  | none hc =>
    obtain ⟨c, rfl, rfl⟩ := List.map_eq_singleton_iff.1 hu
    exact ⟨[], .none (g := along g f note) hc, rfl⟩
  | some hs hc =>
    obtain ⟨us, c, rfl, hus, rfl⟩ := split_last hu
    obtain ⟨ps, hs', rfl⟩ := parameters_lift hφ hs hus
    exact ⟨ps, .some hs' hc, rfl⟩

theorem visibility_lift {ts : List τ} {v : Bool} (h : IsVisibility g ts v) {us : List σ}
    (hu : us.map f = ts) : IsVisibility (along g f note) us v := by
  cases h with
  | inside =>
    obtain rfl := List.map_eq_nil_iff.1 hu
    exact .inside
  | outside hk =>
    obtain ⟨u, rfl, rfl⟩ := List.map_eq_singleton_iff.1 hu
    exact .outside (g := along g f note) hk

theorem declaration_lift (hφ : Carried g f note φ) {ts : List τ} {d : Declaration α}
    (h : IsDeclaration g ts d) {us : List σ} (hu : us.map f = ts) :
    ∃ d', IsDeclaration (along g f note) us d' ∧ d'.mapNote φ = d := by
  cases h with
  | typeAlias hv hw hn ho hs hc =>
    obtain ⟨us, vs, rfl, hus, hvs⟩ := List.map_eq_append_iff.1 hu
    obtain ⟨w, n, o, rest, rfl, rfl, rfl, rfl, hrest⟩ := split_head hvs
    obtain ⟨s, c, rfl, rfl, rfl⟩ := split_pair hrest
    exact ⟨_, .typeAlias (g := along g f note) (visibility_lift hv hus) hw hn ho hs hc,
      by simp [Declaration.mapNote, along, hφ.apply, hus]⟩
  | field hv ht hn hc =>
    obtain ⟨front, n, c, rfl, hfront, rfl, rfl⟩ := split_two hu
    obtain ⟨us, vs, rfl, hus, hvs⟩ := List.map_eq_append_iff.1 hfront
    obtain ⟨t, ht', rfl⟩ := type_lift hφ ht hvs
    exact ⟨_, .field (g := along g f note) (visibility_lift hv hus) ht' hn hc,
      by simp [Declaration.mapNote, along, hφ.apply, hus, hvs]⟩
  | function hv ht hn ho hp hb =>
    obtain ⟨front, bs, rfl, hfront, hbs⟩ := List.map_eq_append_iff.1 hu
    obtain ⟨front, n, rest, rfl, hfront', rfl, hrest⟩ := split_at hfront
    obtain ⟨o, ws, rfl, rfl, hws⟩ := List.map_eq_cons_iff.1 hrest
    obtain ⟨us, vs, rfl, hus, hvs⟩ := List.map_eq_append_iff.1 hfront'
    obtain ⟨t, ht', rfl⟩ := type_lift hφ ht hvs
    obtain ⟨ps, hp', rfl⟩ := signature_lift hφ hp hws
    obtain ⟨ss, hb', hne, rfl⟩ := block_lift hφ hb hbs
    exact ⟨_, .function (g := along g f note) (visibility_lift hv hus) ht' hn ho hp' hb',
      by simp [Declaration.mapNote, Block.mapNote, along, hφ.apply, hne, hus, hvs, hws, hbs]⟩

theorem declarations_lift (hφ : Carried g f note φ) {ts : List τ} {ds : List (Declaration α)}
    (h : IsDeclarations g ts ds) {us : List σ} (hu : us.map f = ts) :
    ∃ ds', IsDeclarations (along g f note) us ds' ∧ ds'.map (Declaration.mapNote φ) = ds := by
  induction h generalizing us with
  | nil =>
    obtain rfl := List.map_eq_nil_iff.1 hu
    exact ⟨[], .nil, rfl⟩
  | cons hd hr ih =>
    obtain ⟨us, vs, rfl, hus, hvs⟩ := List.map_eq_append_iff.1 hu
    obtain ⟨d, hd', rfl⟩ := declaration_lift hφ hd hus
    obtain ⟨ds, hr', rfl⟩ := ih hvs
    exact ⟨d :: ds, .cons hd' hr', rfl⟩

theorem imports_lift (hφ : Carried g f note φ) {ts : List τ} {is : List (Import α)}
    (h : IsImports g ts is) {us : List σ} (hu : us.map f = ts) :
    ∃ is', IsImports (along g f note) us is' ∧ is'.map (Import.mapNote φ) = is := by
  induction h generalizing us with
  | nil =>
    obtain rfl := List.map_eq_nil_iff.1 hu
    exact ⟨[], .nil, rfl⟩
  | cons hw hn hc hr ih =>
    obtain ⟨w, n, c, us, rfl, rfl, rfl, rfl, hus⟩ := split_head hu
    obtain ⟨is, hr', rfl⟩ := ih hus
    exact ⟨_, .cons (g := along g f note) hw hn hc hr',
      by simp [Import.mapNote, along, hφ.apply]⟩

theorem module_lift (hφ : Carried g f note φ) {ts : List τ} {m : Module α} (h : IsModule g ts m)
    {us : List σ} (hu : us.map f = ts) :
    ∃ m', IsModule (along g f note) us m' ∧ m'.mapNote φ = m := by
  cases h with
  | mk hw hn ho hi hd hc he =>
    obtain ⟨front, c, e, rfl, hfront, rfl, rfl⟩ := split_two hu
    obtain ⟨front, ds, rfl, hfront', hds⟩ := List.map_eq_append_iff.1 hfront
    obtain ⟨w, n, o, is, rfl, rfl, rfl, rfl, his⟩ := split_head hfront'
    obtain ⟨imports, hi', rfl⟩ := imports_lift hφ hi his
    obtain ⟨declarations, hd', rfl⟩ := declarations_lift hφ hd hds
    exact ⟨_, .mk (g := along g f note) hw hn ho hi' hd' hc he,
      by simp [Module.mapNote, along, hφ.apply, his, hds]⟩

end ModuleSyntax.Proofs.Lifting
