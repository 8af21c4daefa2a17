import ModuleSyntax.Proofs.Requests

namespace ModuleSyntax.Proofs.SameTokens

open Places Skipping Requests

variable {p : Position} {text front w : List Char} {s t : Token} {ts us : List Token}
  {answer : Option (Except Diagnostic Token)} {l m after : Lexer} {rs qs : List Request}
  {source other : String} {file name : Option String}

theorem afterText_onLine (h : '\n' ∉ text) :
    p.afterText text = ⟨p.line, p.column + text.length.toUInt32⟩ := by
  induction text generalizing p with
  | nil => simp
  | cons c text ih =>
    obtain ⟨hc, htext⟩ := List.ne_and_not_mem_of_not_mem_cons h
    rw [Position.afterText_cons, ih htext, Position.after, if_neg (Ne.symm hc), List.length_cons]
    simp only [Position.mk.injEq, true_and]
    apply UInt32.toNat.inj
    simp only [UInt32.toNat_add, Nat.toUInt32_eq, UInt32.toNat_ofNat', UInt32.toNat_one]
    omega

theorem notMem_lexeme (h : '\n' ∉ t.value.toList) : '\n' ∉ t.lexeme := by
  unfold Token.lexeme Token.written
  split <;> simp [h]

/-- Ends that follow from the lexemes are the same for the same tokens. -/
theorem eq_of_same (hs : s.span.stop = s.span.start.afterText s.lexeme)
    (ht : t.span.stop = t.span.start.afterText t.lexeme) (h : s.same t) : s = t := by
  obtain ⟨sk, sv, sstart, sstop⟩ := s
  obtain ⟨tk, tv, tstart, tstop⟩ := t
  simp only [Token.same, Bool.and_eq_true, decide_eq_true_eq] at h
  obtain ⟨⟨rfl, rfl⟩, rfl⟩ := h
  simp only [Token.mk.injEq, Span.mk.injEq, true_and]
  exact hs.trans ht.symm

theorem same_self (t : Token) : t.same t := by simp [Token.same]

theorem onLine_of_scanned (ht : t.span.stop = t.span.start.afterText t.lexeme)
    (h : '\n' ∉ t.value.toList) :
    Token.onLine t.kind t.span.start t.value = t := by
  obtain ⟨kind, value, start, stop⟩ := t
  simp only [Token.onLine, Token.mk.injEq, Span.mk.injEq, true_and]
  exact ((afterText_onLine (notMem_lexeme h)).symm.trans ht.symm)

theorem given_passes (hs : Served l answer after) (ht : t ∈ given answer) :
    ∃ w, Passes l w (.ok t) after := by
  cases hs with
  | past hg =>
    rw [hg] at ht
    cases ht
  | token hs hw =>
    obtain rfl := List.mem_singleton.1 ht
    exact ⟨_, hw⟩

/-- A token that is given has been found in some of the source. -/
theorem found_of_given (hb : Behind source.toList front l) (ht : t ∈ (serveAll rs l).1) :
    ∃ front l w after, Behind source.toList front l ∧ Passes l w (.ok t) after := by
  induction rs generalizing l front with
  | nil => cases ht
  | cons r rs ih =>
    have hs := serve_served r l
    obtain ht | ht := List.mem_append.1 ht
    · obtain ⟨w, hw⟩ := given_passes hs ht
      exact ⟨front, l, w, _, hb, hw⟩
    · obtain ⟨front', hb'⟩ := hb.served hs
      exact ih hb' ht

/-- The place that a token on one line ends at does not wrap. -/
theorem narrow_of_passes (hb : Behind source.toList front l) (hw : Passes l w (.ok t) after)
    (h : source.length < UInt32.size) :
    t.span.start.column.toNat + t.lexeme.length < UInt32.size := by
  rw [← String.length_toList] at h
  have hfits := hb.fits h
  rw [hw.text] at hfits
  have hlexeme := hfits.append.2.append.1.column
  rwa [← hw.start] at hlexeme

/-- The end of a token that is given, whatever the reader was asked for before, is the place that
its lexeme leads to from its start. So two of them that agree in kind, start and value agree in
their ends too, also when they come from different sources. And one that is all on a line is what
the kind, start and value make on one line. -/
theorem given_same (hr : serveAll rs (Lexer.ofString source file) = (ts, l))
    (hq : serveAll qs (Lexer.ofString other name) = (us, m)) :
    (∀ t ∈ ts, t.span.stop = t.span.start.afterText t.lexeme ∧
      ('\n' ∉ t.value.toList → Token.onLine t.kind t.span.start t.value = t ∧
        (source.length < UInt32.size →
          t.span.start.column.toNat + t.lexeme.length < UInt32.size))) ∧
    ∀ s ∈ ts, ∀ t ∈ us, s.same t ↔ s = t := by
  obtain ⟨rfl, rfl⟩ := Prod.mk.inj hr
  obtain ⟨rfl, rfl⟩ := Prod.mk.inj hq
  refine ⟨fun t ht => ?_, fun s hs t ht => ⟨fun h => ?_, fun h => ?_⟩⟩
  · obtain ⟨front, l, w, after, hb, hw⟩ := found_of_given (behind_start source file) ht
    exact ⟨hw.scanned, fun hn => ⟨onLine_of_scanned hw.scanned hn, narrow_of_passes hb hw⟩⟩
  · obtain ⟨_, _, _, _, _, hw⟩ := found_of_given (behind_start source file) hs
    obtain ⟨_, _, _, _, _, hv⟩ := found_of_given (behind_start other name) ht
    exact eq_of_same hw.scanned hv.scanned h
  · rw [h]
    exact same_self t

def twoLines : Token := ⟨.stringLiteral, "é\n", ⟨⟨0, 0⟩, ⟨1, 1⟩⟩⟩

def oneLetter : Token := ⟨.stringLiteral, "ü", ⟨⟨1, 2⟩, ⟨1, 5⟩⟩⟩

theorem given_same_texts :
    "\"é\n\" \"ü\"".length < UInt32.size ∧ ∃ l m,
      serveAll [.next, .item] (Lexer.ofString "\"é\n\" \"ü\"" none) =
        ([twoLines, oneLetter], l) ∧
      serveAll [.next, .skip 3, .next] (Lexer.ofString "é\na \"ü\"" none) = ([oneLetter], m) ∧
      twoLines.span.stop = twoLines.span.start.afterText twoLines.lexeme ∧
      Token.onLine .stringLiteral ⟨1, 2⟩ "ü" = oneLetter ∧ (2 : UInt32).toNat + 3 < UInt32.size ∧
      (¬ twoLines.same oneLetter ∧ twoLines ≠ oneLetter) ∧ oneLetter.same oneLetter := by
  have h : "\"é\n\" \"ü\"".length < UInt32.size := by decide
  have hr : serveAll [.next, .item] (Lexer.ofString "\"é\n\" \"ü\"" none) =
    ([twoLines, oneLetter], _) := rfl
  have hq : serveAll [.next, .skip 3, .next] (Lexer.ofString "é\na \"ü\"" none) =
    ([oneLetter], _) := rfl
  obtain ⟨hscanned, hsame⟩ := given_same hr hq
  have hletter : oneLetter ∈ [twoLines, oneLetter] := List.mem_cons_of_mem _ List.mem_cons_self
  have hline := (hscanned oneLetter hletter).2 (by decide)
  have hne := hsame twoLines List.mem_cons_self oneLetter List.mem_cons_self
  refine ⟨h, _, _, hr, hq, (hscanned twoLines List.mem_cons_self).1, hline.1, hline.2 h,
    ⟨by decide, fun he => ?_⟩, ?_⟩
  · exact absurd (hne.2 he) (by decide)
  · exact (hsame oneLetter hletter oneLetter List.mem_cons_self).2 rfl

end ModuleSyntax.Proofs.SameTokens
