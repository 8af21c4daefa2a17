import Mathlib.Data.List.DropRight
import ModuleSyntax.Token

namespace ModuleSyntax.Proofs.Places

variable {p q r : Position} {c : Char} {text rest : List Char}

def Precedes (p q : Position) : Prop := p.line < q.line ∨ p.line = q.line ∧ p.column < q.column

instance (p q : Position) : Decidable (Precedes p q) :=
  inferInstanceAs (Decidable (p.line < q.line ∨ p.line = q.line ∧ p.column < q.column))

theorem Precedes.irrefl (p : Position) : ¬ Precedes p p := by
  rintro (h | ⟨-, h⟩) <;> exact UInt32.lt_irrefl _ h

theorem Precedes.trans (h : Precedes p q) (k : Precedes q r) : Precedes p r := by
  obtain h | ⟨h, h'⟩ := h <;> obtain k | ⟨k, k'⟩ := k
  · exact .inl (UInt32.lt_trans h k)
  · exact .inl (k ▸ h)
  · exact .inl (h ▸ k)
  · exact .inr ⟨h.trans k, UInt32.lt_trans h' k'⟩

/-- Neither counter wraps on the way through a text. -/
structure Fits (p : Position) (text : List Char) : Prop where
  line : p.line.toNat + text.length < UInt32.size
  column : p.column.toNat + text.length < UInt32.size

theorem fits_start (h : text.length < UInt32.size) : Fits .start text := by
  constructor <;> simpa [Position.start] using h

theorem toNat_succ {n : UInt32} (h : n.toNat + 1 < UInt32.size) : (n + 1).toNat = n.toNat + 1 := by
  rw [UInt32.toNat_add]
  exact Nat.mod_eq_of_lt h

theorem Fits.after (h : Fits p (c :: text)) : Fits (p.after c) text := by
  obtain ⟨hl, hc⟩ := h
  rw [List.length_cons] at hl hc
  unfold Position.after
  split
  · constructor
    · rw [toNat_succ (by omega)]
      omega
    · simp only [UInt32.toNat_zero]
      omega
  · refine ⟨Nat.lt_of_succ_lt hl, ?_⟩
    rw [toNat_succ (by omega)]
    omega

theorem Fits.precedes_after (h : Fits p (c :: text)) : Precedes p (p.after c) := by
  obtain ⟨hl, hc⟩ := h
  rw [List.length_cons] at hl hc
  unfold Position.after
  split
  · apply Or.inl
    rw [UInt32.lt_iff_toNat_lt, toNat_succ (by omega)]
    omega
  · refine .inr ⟨rfl, ?_⟩
    rw [UInt32.lt_iff_toNat_lt, toNat_succ (by omega)]
    omega

theorem Fits.append (h : Fits p (text ++ rest)) : Fits p text ∧ Fits (p.afterText text) rest := by
  induction text generalizing p with
  | nil =>
    refine ⟨?_, h⟩
    obtain ⟨hl, hc⟩ := h
    constructor <;> simp only [List.nil_append, List.length_nil] at hl hc ⊢ <;> omega
  | cons c text ih =>
    refine ⟨?_, (ih h.after).2⟩
    obtain ⟨hl, hc⟩ := h
    constructor <;> simp only [List.length_append, List.length_cons] at hl hc ⊢ <;> omega

def placed : Position → List Char → List (Position × Char)
  | _, [] => []
  | p, c :: text => (p, c) :: placed (p.after c) text

theorem placed_append (p : Position) (text rest : List Char) :
    placed p (text ++ rest) = placed p text ++ placed (p.afterText text) rest := by
  induction text generalizing p with
  | nil => rfl
  | cons c text ih => rw [List.cons_append, placed, placed, ih, List.cons_append,
      Position.afterText_cons]

theorem map_snd_placed (p : Position) (text : List Char) : (placed p text).map Prod.snd = text := by
  induction text generalizing p with
  | nil => rfl
  | cons c text ih => rw [placed, List.map_cons, ih]

theorem Fits.placed (h : Fits p text) :
    ∀ x ∈ placed p text, ¬ Precedes x.1 p ∧ Precedes x.1 (p.afterText text) := by
  induction text generalizing p with
  | nil => exact fun _ hx => nomatch hx
  | cons c text ih =>
    have hc := h.precedes_after
    intro x hx
    obtain rfl | hx := List.mem_cons.1 hx
    · refine ⟨Precedes.irrefl p, ?_⟩
      cases text with
      | nil => exact hc
      | cons d text => exact hc.trans (ih h.after _ List.mem_cons_self).2
    · obtain ⟨hp, hq⟩ := ih h.after x hx
      exact ⟨fun hn => hp (hn.trans hc), hq⟩

theorem Fits.precedes (h : Fits p text) (hn : text ≠ []) : Precedes p (p.afterText text) := by
  cases text with
  | nil => exact absurd rfl hn
  | cons c text => exact (h.placed (p, c) List.mem_cons_self).2

def Reaches (p q : Position) : Prop := p = q ∨ Precedes p q

theorem Reaches.trans (h : Reaches p q) (k : Reaches q r) : Reaches p r := by
  obtain rfl | h := h
  · exact k
  · obtain rfl | k := k
    · exact .inr h
    · exact .inr (h.trans k)

theorem Fits.reaches (h : Fits p text) : Reaches p (p.afterText text) := by
  cases text with
  | nil => exact .inl rfl
  | cons c text => exact .inr (h.precedes (List.cons_ne_nil c text))

/-- A place counts the line feeds of a text and the characters after the last of them. -/
structure Counts (text : List Char) (p : Position) : Prop where
  line : p.line.toNat = text.count '\n'
  column : p.column.toNat = (text.rtakeWhile (· ≠ '\n')).length

/-- In a text that is short enough the places count what is before them. -/
theorem counts_afterText (h : text.length < UInt32.size) :
    Counts text (Position.start.afterText text) := by
  -- by the last character: the column is counted from the last line feed on
  induction text using List.reverseRecOn with
  | nil => exact ⟨rfl, rfl⟩
  | append_singleton text c ih =>
    rw [List.length_append, List.length_singleton] at h
    obtain ⟨hline, hcolumn⟩ := ih (by omega)
    rw [Position.afterText_append, Position.afterText_cons, Position.afterText_nil, Position.after]
    split
    · rename_i hc
      have hle := List.count_le_length (a := '\n') (l := text)
      constructor
      · rw [toNat_succ (by omega), hline, hc, List.count_append]
        rfl
      · rw [List.rtakeWhile_concat_neg _ _ _ (by simpa using hc)]
        rfl
    · rename_i hc
      have hle := (List.rtakeWhile_suffix (· ≠ '\n') text).length_le
      constructor
      · rw [hline, List.count_append, List.count_singleton, beq_false_of_ne hc]
        rfl
      · rw [toNat_succ (by omega), hcolumn, List.rtakeWhile_concat_pos _ _ _ (by simpa using hc),
          List.length_append]
        rfl

def spanned (source : List Char) (s : Span) : List Char :=
  ((placed .start source).filter fun x =>
    !decide (Precedes x.1 s.start) && decide (Precedes x.1 s.stop)).map Prod.snd

/-- The span of a piece of a source holds that piece. -/
theorem spanned_piece {front piece back : List Char}
    (h : (front ++ (piece ++ back)).length < UInt32.size) :
    spanned (front ++ (piece ++ back))
      ⟨Position.start.afterText front, Position.start.afterText (front ++ piece)⟩ = piece := by
  obtain ⟨hfront, hrest⟩ := (fits_start h).append
  obtain ⟨hpiece, hback⟩ := hrest.append
  rw [spanned, placed_append, placed_append, List.filter_append, List.filter_append,
    List.filter_eq_nil_iff.2, List.filter_eq_self.2, List.filter_eq_nil_iff.2, List.nil_append,
    List.append_nil, map_snd_placed]
  · intro x hx
    simp [(hback.placed x hx).1]
  · intro x hx
    simp [hpiece.placed x hx]
  · intro x hx
    simp [(hfront.placed x hx).2]

end ModuleSyntax.Proofs.Places
