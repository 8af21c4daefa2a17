import ModuleSyntax.Proofs.Acceptance
import ModuleSyntax.Proofs.Lifting
import ModuleSyntax.Proofs.Rows

namespace ModuleSyntax.Proofs.Extents

open Grammar Motion Symbols Lifting Nodes Rows Acceptance

/-- The indices of some tokens in a row, by the first and the last of them. -/
structure Extent where
  first : Nat
  last : Nat

namespace Extent

def ofIndices (is : List Nat) : Extent := ⟨is.head?.getD 0, is.getLast?.getD 0⟩

def indices (x : Extent) : List Nat := List.range' x.first (x.last + 1 - x.first)

end Extent

def tokenAt (ts : List Token) (i : Nat) : Token := ts.getD i (.eof .start)

def Extent.span (ts : List Token) (x : Extent) : Span :=
  ⟨(tokenAt ts x.first).span.start, (tokenAt ts x.last).span.stop⟩

def numbered (ts : List Token) : Terminals Nat Extent :=
  along tokens (tokenAt ts) Extent.ofIndices

/-- A node stands for the tokens from the first to the last of its extent, with the end of the
source behind them, and the nodes right inside it stand for some of these, apart from each other
and from left to right. -/
structure Extends (ts : List Token) (n : Node Extent) : Prop where
  ordered : n.note.first ≤ n.note.last
  short : n.note.last + 1 < ts.length
  derived : Derived (numbered ts) n.note.indices n
  within : ∀ c ∈ n.children, n.note.first ≤ c.note.first ∧ c.note.last ≤ n.note.last
  apart : n.children.Pairwise fun a b => a.note.last < b.note.first

variable {ts : List Token} {i k : Nat} {n : Node Extent}

theorem map_tokenAt (ts : List Token) : (List.range ts.length).map (tokenAt ts) = ts := by
  apply List.ext_getElem
  · simp
  · intro j hj hj'
    simp [tokenAt, hj']

theorem span_ofIndices (ts : List Token) (is : List Nat) (h : is ≠ []) :
    Extent.span ts (.ofIndices is) = tokens.note (is.map (tokenAt ts)) := by
  simp [Extent.span, Extent.ofIndices, tokens, around, List.head?_eq_some_head h,
    List.getLast?_eq_some_getLast h]

theorem ofIndices_range' (hk : 0 < k) : Extent.ofIndices (List.range' i k) = ⟨i, i + k - 1⟩ := by
  obtain ⟨m, rfl⟩ := Nat.exists_eq_add_of_lt hk
  simp [Extent.ofIndices, List.head?_range', List.getLast?_range']

/-- A node that derives from indices in a row has them for its extent. -/
theorem note_of_derived (h : Derived (numbered ts) (List.range' i k) n) :
    0 < k ∧ n.note = ⟨i, i + k - 1⟩ := by
  have hk : 0 < k := by
    apply Nat.pos_of_ne_zero
    rintro rfl
    exact derived_ne_nil h rfl
  exact ⟨hk, (derived_note h).trans (ofIndices_range' hk)⟩

/-- A node that derives from a row within the `k` indices from `i` on. -/
def Holds (ts : List Token) (i k : Nat) (n : Node Extent) : Prop :=
  ∃ j m, i ≤ j ∧ j + m ≤ i + k ∧ Derived (numbered ts) (List.range' j m) n

theorem Holds.note (h : Holds ts i k n) : i ≤ n.note.first ∧ n.note.last < i + k := by
  obtain ⟨j, m, hj, hm, hn⟩ := h
  obtain ⟨hpos, hnote⟩ := note_of_derived hn
  rw [hnote]
  dsimp only
  omega

theorem Holds.mono {j m : Nat} (h : Holds ts j m n) (hi : i ≤ j) (hk : j + m ≤ i + k) :
    Holds ts i k n := by
  obtain ⟨a, b, ha, hb, hn⟩ := h
  exact ⟨a, b, by omega, by omega, hn⟩

theorem split_range' {us vs : List Nat} (h : List.range' i k = us ++ vs) :
    ∃ b ≤ k, us = List.range' i b ∧ vs = List.range' (i + b) (k - b) := by
  simpa using List.range'_eq_append_iff.1 h

theorem row_holds {us : List Nat} {ns : List (Node Extent)} (h : Row (Derived (numbered ts)) us ns)
    (hu : List.range' i k = us) :
    (∀ n ∈ ns, Holds ts i k n) ∧ ns.Pairwise fun a b => a.note.last < b.note.first := by
  -- a piece of `i, i + 1, ..` is again such a row, and what follows it begins further on
  induction h generalizing i k with
  | nil => simp
  | @cons piece us n ns before h hr ih =>
    obtain ⟨b, hb, rfl, hrest⟩ := split_range' hu
    obtain ⟨m, hm, rfl, hus⟩ := split_range' hrest.symm
    obtain ⟨hall, hapart⟩ := ih hus.symm
    have hn : Holds ts (i + b) m n := ⟨i + b, m, Nat.le_refl _, Nat.le_refl _, h⟩
    constructor
    · intro c hc
      obtain rfl | hc := List.mem_cons.1 hc
      · exact hn.mono (by omega) (by omega)
      · exact (hall c hc).mono (by omega) (by omega)
    · rw [List.pairwise_cons]
      refine ⟨fun c hc => ?_, hapart⟩
      exact Nat.lt_of_lt_of_le hn.note.2 (hall c hc).note.1

theorem Holds.child {c : Node Extent} (h : Holds ts i k n) (hc : c ∈ n.children) :
    Holds ts i k c := by
  obtain ⟨j, m, hj, hm, hn⟩ := h
  exact ((row_holds (children_row hn) rfl).1 c hc).mono hj hm

theorem Holds.inside {x : Node Extent} (h : Holds ts i k n) (hx : Inside n x) :
    Holds ts i k x := by
  induction hx with
  | root => exact h
  | child _ hc ih => exact ih.child hc

theorem Holds.extends (h : Holds ts i k n) (hk : i + k < ts.length) : Extends ts n := by
  obtain ⟨j, m, hj, hm, hn⟩ := h
  obtain ⟨hpos, hnote⟩ := note_of_derived hn
  obtain ⟨hall, hapart⟩ := row_holds (children_row hn) rfl
  have hlast : n.note.last = j + m - 1 := by rw [hnote]
  have hfirst : n.note.first = j := by rw [hnote]
  refine ⟨by omega, by omega, ?_, fun c hc => ?_, hapart⟩
  · rw [Extent.indices, hfirst, hlast]
    have hcount : j + m - 1 + 1 - j = m := by omega
    rwa [hcount]
  · have hc := (hall c hc).note
    omega

theorem derived_of_module {r : Module Extent}
    (h : IsModule (numbered ts) (List.range ts.length) r) :
    ∃ k, ts.length = k + 1 ∧ Derived (numbered ts) (List.range' 0 k) (.module r) := by
  cases hl : ts.length with
  | zero =>
    rw [hl] at h
    generalize hv : List.range 0 = vs at h
    cases h
    simp at hv
  | succ k =>
    rw [hl, List.range_succ, List.range_eq_range'] at h
    exact ⟨k, rfl, .module h⟩

/-- Every node of an accepted source has the span of the tokens that it derives from. -/
theorem parse_extents {source : String} {file : Option String} {m : Module Span}
    (h : parseSource source file = some (.ok m)) :
    ∃ ts r, tokenize source file = .ok ts ∧ m = r.mapNote (Extent.span ts) ∧
      r.note = ⟨0, ts.length - 2⟩ ∧
      (∀ y, Inside (.module m) y → ∃ x, Inside (.module r) x ∧ y = x.mapNote (Extent.span ts) ∧
        y.note = x.note.span ts) ∧
      ∀ x, Inside (.module r) x → Extends ts x := by
  obtain ⟨ts, ht, hm⟩ := derivable_of_parse h
  obtain ⟨r, hr, rfl⟩ := module_lift (span_ofIndices ts) hm (map_tokenAt ts)
  obtain ⟨k, hk, hd⟩ := derived_of_module hr
  have hroot : Holds ts 0 k (.module r) := ⟨0, k, Nat.le_refl _, Nat.le_refl _, hd⟩
  refine ⟨ts, r, ht, rfl, ?_, fun y hy => ?_, fun x hx => ?_⟩
  · have hlast : ts.length - 2 = 0 + k - 1 := by omega
    rw [hlast]
    exact (note_of_derived hd).2
  · have hy' : Inside ((Node.module r).mapNote (Extent.span ts)) y := hy
    obtain ⟨x, hx, rfl⟩ := inside_mapNote hy'
    exact ⟨x, hx, rfl, note_mapNote _ x⟩
  · exact (hroot.inside hx).extends (by omega)

def answering : String := "module A\x7bpublic int f()\x7breturn (1);\x7d\x7d"

theorem answering_derives :
    ∃ ts m, tokenize answering none = .ok ts ∧ IsModule symbols (ts.map symbol) m := by
  have hi : IsExpression symbols .assignment [(.intLiteral, "1")] (.int "1" ()) :=
    .looser (by decide) (.int (g := symbols) rfl)
  have he : IsExpression symbols .assignment
      [(.mark .openParen, "("), (.intLiteral, "1"), (.mark .closeParen, ")")] (.int "1" ()) :=
    .looser (by decide) (.group (g := symbols) rfl hi rfl)
  have hs : IsStatement symbols
      [(.keyword .returnWord, "return"), (.mark .openParen, "("), (.intLiteral, "1"),
        (.mark .closeParen, ")"), (.mark .semicolon, ";")] (.returnValue (some (.int "1" ())) ()) :=
    .returnValue (g := symbols) rfl he rfl
  have hb := IsBlock.mk (g := symbols) (o := (.mark .openCurly, "\x7b"))
    (c := (.mark .closeCurly, "\x7d")) rfl (.cons hs .nil) rfl
  have hd := IsDeclaration.function (g := symbols) (n := (.identifier, "f"))
    (o := (.mark .openParen, "(")) (.outside (t := (.keyword .publicWord, "public")) rfl)
    (.primitive (t := (.keyword .intWord, "int")) (p := .int) rfl) rfl rfl
    (.none (c := (.mark .closeParen, ")")) rfl) hb
  have hm := IsModule.mk (g := symbols) (w := (.keyword .moduleWord, "module"))
    (n := (.identifier, "A")) (o := (.mark .openCurly, "\x7b")) (c := (.mark .closeCurly, "\x7d"))
    (e := (.eof, "")) rfl rfl rfl .nil (.cons hd .nil) rfl rfl
  exact ⟨_, _, rfl, hm⟩

theorem parse_extents_answering : ∃ m, parseSource answering none = some (.ok m) ∧
    ∃ ts r, tokenize answering none = .ok ts ∧ m = r.mapNote (Extent.span ts) ∧
      ∀ x, Inside (.module r) x → Extends ts x := by
  obtain ⟨ts, m, ht, hm⟩ := answering_derives
  obtain ⟨n, hn, -⟩ := parse_of_derivable ht hm
  obtain ⟨us, r, hu, hr, -, -, hx⟩ := parse_extents hn
  exact ⟨n, hn, us, r, hu, hr, hx⟩

end ModuleSyntax.Proofs.Extents
