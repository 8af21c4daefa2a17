import ModuleSyntax.Parse.Module
import ModuleSyntax.Proofs.RunningStatement

namespace ModuleSyntax.Proofs.RunningModule

open Parse Motion Grammar Symbols Levels Running RunningExpression RunningStatement

variable {p q r : Parser}

abbrev importsSaid : List (Import Span) → List (Import Unit) :=
  List.map (Import.mapNote fun _ => ())

abbrev parametersSaid : List (Parameter Span) → List (Parameter Unit) :=
  List.map (Parameter.mapNote fun _ => ())

abbrev declarationSaid : Declaration Span → Declaration Unit := Declaration.mapNote fun _ => ()

abbrev declarationsSaid : List (Declaration Span) → List (Declaration Unit) :=
  List.map declarationSaid

theorem runs_importLine {a b c : Symbol} {ts : List Symbol} (hs : Spells p (a :: b :: c :: ts) r)
    (ha : a.1 = .keyword .importWord) (hb : b.1 = .identifier) (hc : c.1 = .mark .semicolon) :
    ∃ q, Runs (Import.mapNote fun _ => ()) (fun _ => importLine) p ⟨b.2, ()⟩ q ∧
      Spells q ts r := by
  obtain ⟨p₁, ha', hs⟩ := hs.expect ha
  obtain ⟨p₂, hb', hs⟩ := hs.expect hb
  obtain ⟨p₃, hc', hs⟩ := hs.expect hc
  refine ⟨p₃, ?_, hs⟩
  refine ha'.bind fun _ _ => hb'.bind fun t ht => hc'.bind fun _ _ =>
    runs_previousEnd (runs_pure ?_)
  rw [← ht]
  rfl

theorem runs_imports {ts : List Symbol} {is : List (Import Unit)} (h : IsImports symbols ts is)
    (hs : Spells p ts q) (hq : q.current.kind ≠ .keyword .importWord) :
    Runs importsSaid imports p is q := by
  induction h generalizing p with
  | nil =>
    obtain rfl := hs.nil
    exact Runs.call (runs_kind (runs_else hq (runs_pure rfl)))
  | @cons w n c us is hw hn hc hr ih =>
    have hk := hs.kind.trans hw
    obtain ⟨p₁, hline, hs⟩ := runs_importLine hs hw hn hc
    refine Runs.call (runs_kind (runs_if hk ?_))
    refine hline.bind fun i hi => (ih hs).bind fun is his => runs_pure ?_
    rw [importsSaid, List.map_cons, hi, ← his]
    rfl

theorem parameter_begins {τ α : Type} {g : Terminals τ α} {ts : List τ} {a : Parameter α}
    (h : IsParameter g ts a) : ∃ s us, ts = s :: us ∧ g.kind s ≠ .mark .closeParen := by
  cases h with
  | mk ht hn =>
    obtain ⟨s, us, rfl, h⟩ := type_begins ht
    refine ⟨s, _, rfl, ?_⟩
    split at h <;> rw [h] <;> exact Kind.noConfusion

theorem runs_parameter {ts : List Symbol} {a : Parameter Unit} (h : IsParameter symbols ts a)
    (hp : p.tables = .standard) (hs : Spells p ts q) :
    Runs (Parameter.mapNote fun _ => ()) parameter p a q := by
  cases h with
  | @mk n ts t ht hn =>
    obtain ⟨p₁, hs₁, hs₂⟩ := hs.split
    have hk : p₁.current.kind = .identifier := hs₂.kind.trans hn
    have hin := runs_typeAll ht hp hs₁ (by rw [hk]; exact Kind.noConfusion)
    obtain ⟨p₂, hn', h⟩ := hs₂.expect hn
    obtain rfl := h.nil
    refine hin.bind fun t ht => hn'.bind fun c hc => runs_previousEnd (runs_pure ?_)
    rw [← ht, ← hc]
    rfl

theorem runs_parameters {ts : List Symbol} {ps : List (Parameter Unit)}
    (h : IsParameters symbols ts ps) (hp : p.tables = .standard) (hs : Spells p ts q)
    (hq : q.current.kind ≠ .mark .comma) : Runs parametersSaid parameters p ps q := by
  induction h generalizing p with
  | one ha =>
    refine Runs.call ((runs_parameter ha hp hs).bind fun a ha =>
      runs_kind (runs_else hq (runs_pure ?_)))
    rw [parametersSaid, List.map_cons, ha]
    rfl
  | @more c ts us a ps ha hc hps ih =>
    have ht := hs.tables.trans hp
    obtain ⟨p₁, hs₁, hs₂⟩ := hs.split
    have hk : p₁.current.kind = .mark .comma := hs₂.kind.trans hc
    obtain ⟨p₂, hc', hs₃⟩ := hs₂.advance
    refine Runs.call ((runs_parameter ha hp hs₁).bind fun a ha => runs_kind (runs_if hk ?_))
    refine hc'.bind fun _ _ => (ih (hs₃.tables.symm.trans ht) hs₃).bind fun ps hps => runs_pure ?_
    rw [parametersSaid, List.map_cons, ha, ← hps]

theorem runs_signature {ts : List Symbol} {ps : List (Parameter Unit)}
    (h : IsSignature symbols ts ps) (hp : p.tables = .standard) (hs : Spells p ts q) :
    Runs parametersSaid (fun n => closedList (parameters n) .closeParen) p ps q := by
  cases h with
  | @none c hc =>
    have hk := hs.kind.trans hc
    obtain ⟨p₁, hc', hn⟩ := hs.advance
    obtain rfl := hn.nil
    exact runs_kind (runs_if hk (hc'.bind fun _ _ => runs_pure rfl))
  | @some c ts ps h hc =>
    obtain ⟨p₁, hs₁, hs₂⟩ := hs.split
    have hk : p₁.current.kind = .mark .closeParen := hs₂.kind.trans hc
    have hin := runs_parameters h hp hs₁ (by rw [hk]; decide)
    have hfirst : p.current.kind ≠ .mark .closeParen := by
      cases h with
      | one ha =>
        obtain ⟨s, us, rfl, h⟩ := parameter_begins ha
        rw [hs₁.kind]
        exact h
      | more ha =>
        obtain ⟨s, us, rfl, h⟩ := parameter_begins ha
        rw [hs₁.kind]
        exact h
    obtain ⟨p₂, hc', hn⟩ := hs₂.advance
    obtain rfl := hn.nil
    refine runs_kind (runs_else hfirst (hin.bind fun ps hps => runs_kind (runs_if hk ?_)))
    exact hc'.bind fun _ _ => runs_pure hps

theorem type_begins_ne {τ α : Type} {g : Terminals τ α} {ts : List τ} {t : TypeRef α}
    (h : IsType g ts t) : ∃ s us, ts = s :: us ∧ g.kind s ∉ [Kind.mark .closeCurly,
      .keyword .importWord, .keyword .publicWord, .keyword .typeWord] := by
  obtain ⟨s, us, rfl, hk⟩ := type_begins h
  refine ⟨s, us, rfl, ?_⟩
  split at hk
  · rename_i b _
    rw [hk]
    cases b <;> decide
  · rw [hk]
    decide

/-- What begins a declaration closes no module and begins no import. -/
theorem declaration_begins {τ α : Type} {g : Terminals τ α} {ts : List τ} {d : Declaration α}
    (h : IsDeclaration g ts d) : ∃ t us, ts = t :: us ∧ g.kind t ≠ .mark .closeCurly ∧
      g.kind t ≠ .keyword .importWord := by
  cases h with
  | typeAlias hv hw =>
    cases hv with
    | inside => exact ⟨_, _, rfl, by rw [hw]; decide⟩
    | outside h => exact ⟨_, _, rfl, by rw [h]; decide⟩
  | field hv ht =>
    cases hv with
    | inside =>
      obtain ⟨s, us, rfl, h⟩ := type_begins_ne ht
      exact ⟨s, _, rfl, fun hk => h (by simp [hk]), fun hk => h (by simp [hk])⟩
    | outside h => exact ⟨_, _, rfl, by rw [h]; decide⟩
  | function hv ht =>
    cases hv with
    | inside =>
      obtain ⟨s, us, rfl, h⟩ := type_begins_ne ht
      exact ⟨s, _, rfl, fun hk => h (by simp [hk]), fun hk => h (by simp [hk])⟩
    | outside h => exact ⟨_, _, rfl, by rw [h]; decide⟩

theorem runs_visibility {ts : List Symbol} {v : Bool} (h : IsVisibility symbols ts v)
    (hs : Spells p ts q) (hq : q.current.kind ≠ .keyword .publicWord) :
    Runs id (fun _ => visibility) p v q := by
  cases h with
  | inside =>
    obtain rfl := hs.nil
    exact runs_kind (runs_else hq (runs_pure rfl))
  | @outside t h =>
    have hk := hs.kind.trans h
    obtain ⟨p₁, ht, hn⟩ := hs.advance
    obtain rfl := hn.nil
    exact runs_kind (runs_if hk (ht.bind fun _ _ => runs_pure rfl))

theorem runs_declaration {ts us : List Symbol} {v : Bool} {d : Declaration Unit}
    (hv : IsVisibility symbols ts v) (hs : Spells p ts q) (hus : Spells q us r)
    (hne : ∃ s vs, us = s :: vs ∧ s.1 ≠ .keyword .publicWord)
    (hx : ∀ start, Runs declarationSaid (fun n => if q.current.kind = .keyword .typeWord then
      typeAlias v start else member n v start) q d r) :
    Runs declarationSaid declaration p d r := by
  obtain ⟨s, vs, rfl, hne⟩ := hne
  refine runs_position ((runs_visibility hv hs (by rw [hus.kind]; exact hne)).bind fun w hw =>
    runs_kind ?_)
  obtain rfl : w = v := hw
  exact hx _

theorem declaration_runs {ts : List Symbol} {d : Declaration Unit}
    (h : IsDeclaration symbols ts d) (hp : p.tables = .standard) (hs : Spells p ts q) :
    Runs declarationSaid declaration p d q := by
  have hq := hs.tables.trans hp
  cases h with
  | @typeAlias w n o s c vs v hv hw hn ho hl hc =>
    obtain ⟨p₁, hs₁, hs₂⟩ := hs.split
    refine runs_declaration hv hs₁ hs₂ ⟨w, _, rfl, by rw [show w.1 = _ from hw]; decide⟩
      fun start => runs_if (hs₂.kind.trans hw) ?_
    obtain ⟨p₂, hw', hs₃⟩ := hs₂.expect hw
    obtain ⟨p₃, hn', hs₄⟩ := hs₃.expect hn
    obtain ⟨p₄, ho', hs₅⟩ := hs₄.expect ho
    obtain ⟨p₅, hl', hs₆⟩ := hs₅.expect hl
    obtain ⟨p₆, hc', hnil⟩ := hs₆.expect hc
    obtain rfl := hnil.nil
    refine hw'.bind fun _ _ => hn'.bind fun name hname => ho'.bind fun _ _ =>
      hl'.bind fun text htext => hc'.bind fun _ _ => runs_previousEnd (runs_pure ?_)
    rw [← hname, ← htext]
    rfl
  | @field n c vs us v t hv ht hn hc =>
    rw [List.append_assoc] at hs
    obtain ⟨p₁, hs₁, hs₂⟩ := hs.split
    obtain ⟨s, ws, rfl, hne⟩ := type_begins_ne ht
    have hk : p₁.current.kind = s.1 := hs₂.kind
    refine runs_declaration hv hs₁ hs₂ ⟨s, _, rfl, fun hk => hne (by simp [symbols, hk])⟩
      fun start => runs_else (fun h => hne (by simp [symbols, ← hk, h])) ?_
    obtain ⟨p₂, hs₃, hs₄⟩ := hs₂.split
    have hk₂ : p₂.current.kind = .identifier := hs₄.kind.trans hn
    have hin := runs_typeAll ht (hs₁.tables.trans hp) hs₃ (by rw [hk₂]; exact Kind.noConfusion)
    obtain ⟨p₃, hn', hs₅⟩ := hs₄.expect hn
    have hk₃ : p₃.current.kind = .mark .semicolon := hs₅.kind.trans hc
    obtain ⟨p₄, hc', hnil⟩ := hs₅.advance
    obtain rfl := hnil.nil
    refine hin.bind fun t ht => hn'.bind fun name hname => runs_kind ?_
    rw [hk₃]
    refine hc'.bind fun _ _ => runs_previousEnd (runs_pure ?_)
    rw [← ht, ← hname]
    rfl
  | @function n o vs us ws bs v t ps ss hv ht hn ho hps hb =>
    rw [List.append_assoc, List.append_assoc] at hs
    obtain ⟨p₁, hs₁, hs₂⟩ := hs.split
    obtain ⟨s, xs, rfl, hne⟩ := type_begins_ne ht
    have hk : p₁.current.kind = s.1 := hs₂.kind
    refine runs_declaration hv hs₁ hs₂ ⟨s, _, rfl, fun hk => hne (by simp [symbols, hk])⟩
      fun start => runs_else (fun h => hne (by simp [symbols, ← hk, h])) ?_
    obtain ⟨p₂, hs₃, hs₄⟩ := hs₂.split
    have hk₂ : p₂.current.kind = .identifier := hs₄.kind.trans hn
    have hin := runs_typeAll ht (hs₁.tables.trans hp) hs₃ (by rw [hk₂]; exact Kind.noConfusion)
    obtain ⟨p₃, hn', hs₅⟩ := hs₄.expect hn
    have hk₃ : p₃.current.kind = .mark .openParen := hs₅.kind.trans ho
    obtain ⟨p₄, ho', hs₆⟩ := hs₅.advance
    obtain ⟨p₅, hs₇, hs₈⟩ := hs₆.split
    have hsig := runs_signature hps (hs₆.tables.symm.trans hq) hs₇
    have hblock := block_readable hb p₅ q (hs₈.tables.symm.trans hq) hs₈
    refine hin.bind fun t ht => hn'.bind fun name hname => runs_kind ?_
    rw [hk₃]
    refine ho'.bind fun _ _ => hsig.bind fun ps hps => hblock.bind fun b hb =>
      runs_previousEnd (runs_pure ?_)
    rw [← ht, ← hname, ← hps, ← hb, statementsSaid, Statement.mapNotes_eq_map]
    rfl

theorem runs_declarations {ts : List Symbol} {ds : List (Declaration Unit)}
    (h : IsDeclarations symbols ts ds) (hp : p.tables = .standard) (hs : Spells p ts q)
    (hq : q.current.kind = .mark .closeCurly) :
    Runs declarationsSaid declarations p ds q := by
  induction h generalizing p with
  | nil =>
    obtain rfl := hs.nil
    exact Runs.call (runs_kind (runs_if hq (runs_pure rfl)))
  | @cons ts us d ds hd hr ih =>
    obtain ⟨p₁, hs₁, hs₂⟩ := hs.split
    obtain ⟨s, vs, rfl, hne, -⟩ := declaration_begins hd
    refine Runs.call (runs_kind (runs_else (by rw [hs₁.kind]; exact hne) ?_))
    refine (declaration_runs hd hp hs₁).bind fun d hd =>
      (ih (hs₁.tables.trans hp) hs₂).bind fun ds hds => runs_pure ?_
    rw [declarationsSaid, List.map_cons, hd, ← hds]

/-- Whatever derives from the grammar is read. -/
theorem runs_wholeModule {ts : List Symbol} {m : Module Unit} (h : IsModule symbols ts m)
    (hp : p.tables = .standard) (hs : Spells p ts q) : Runs Module.erase wholeModule p m q := by
  cases h with
  | @mk w n o c e is ds imports declarations hw hn ho hi hd hc he =>
    have hq := hs.tables.trans hp
    rw [List.append_assoc] at hs
    obtain ⟨p₁, hw', hs₁⟩ := hs.expect hw
    obtain ⟨p₂, hn', hs₂⟩ := hs₁.expect hn
    obtain ⟨p₃, ho', hs₃⟩ := hs₂.expect ho
    obtain ⟨p₄, hs₄, hs₅⟩ := hs₃.split
    have hnext : p₄.current.kind ≠ .keyword .importWord := by
      cases hd with
      | nil =>
        rw [hs₅.kind, show c.1 = .mark .closeCurly from hc]
        exact Kind.noConfusion
      | cons hd hr =>
        obtain ⟨s, vs, rfl, -, hne⟩ := declaration_begins hd
        rw [hs₅.kind]
        exact hne
    have himports := runs_imports hi hs₄ hnext
    obtain ⟨p₅, hs₆, hs₇⟩ := hs₅.split
    have hdeclarations := runs_declarations hd (hs₅.tables.symm.trans hq) hs₆ (hs₇.kind.trans hc)
    obtain ⟨p₆, hc', hs₈⟩ := hs₇.expect hc
    obtain ⟨p₇, he', hnil⟩ := hs₈.expect he
    obtain rfl := hnil.nil
    refine hw'.bind fun _ _ => hn'.bind fun name hname => ho'.bind fun _ _ =>
      himports.bind fun is his => hdeclarations.bind fun ds hds => hc'.bind fun _ _ =>
      runs_previousEnd (he'.bind fun _ _ => runs_pure ?_)
    rw [← hname, ← his, ← hds]
    rfl

end ModuleSyntax.Proofs.RunningModule
