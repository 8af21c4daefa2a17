import Mathlib.Data.List.DropRight
import ModuleSyntax.Text.Line
import ModuleSyntax.Text.Space

namespace ModuleSyntax.Proofs.TextLines

open Text

variable {text rest front : List Char} {c : Char} {n : Nat} {p : Char → Bool}

theorem lines_cons (hc : c ≠ '\n') (hr : c = '\r' → text.head? ≠ some '\n') :
    lines (c :: text) = (c :: (lines text).headD []) :: (lines text).tail := by
  rw [lines]
  · cases lines text <;> rfl
  · exact hc
  · rintro rest rfl rfl
    exact hr rfl rfl

theorem tail_lines (hc : c ≠ '\n') : (lines (c :: text)).tail = (lines text).tail := by
  by_cases hr : c = '\r' ∧ text.head? = some '\n'
  · obtain ⟨rfl, ht⟩ := hr
    obtain ⟨rest, rfl⟩ := List.head?_eq_some_iff.1 ht
    rfl
  · rw [lines_cons hc fun hc ht => hr ⟨hc, ht⟩, List.tail_cons]

/-- As many lines as line feeds end with a text that ends with a line feed. -/
theorem drop_lines (front text : List Char) :
    (lines (front ++ '\n' :: text)).drop (front.count '\n' + 1) = lines text := by
  induction front with
  | nil => rfl
  | cons c front ih =>
    by_cases hc : c = '\n'
    · rw [hc, List.count_cons_self]
      exact ih
    · rw [List.count_cons_of_ne hc, List.cons_append, Nat.add_comm, ← List.drop_drop,
        List.drop_one, tail_lines hc, ← List.drop_one, List.drop_drop, Nat.add_comm, ih]

theorem line_zero (text : List Char) : line text 0 = (lines text).headD [] := by
  rw [line]
  cases lines text <;> rfl

theorem line_behind (front text : List Char) :
    line (front ++ '\n' :: text) (front.count '\n' + 1) = line text 0 := by
  rw [line, line, ← drop_lines front text, List.getElem?_drop, Nat.add_zero]

theorem notMem_lines (text : List Char) : ∀ line ∈ lines text, '\n' ∉ line := by
  fun_induction lines text with
  | case1 => simp
  | case2 text ih => simpa using ih
  | case3 text ih => simpa using ih
  | case4 c text hc hr hl ih => simpa using Ne.symm hc
  | case5 c text hc hr first rest hl ih =>
    rw [hl] at ih
    obtain ⟨hfirst, hrest⟩ := List.forall_mem_cons.1 ih
    refine List.forall_mem_cons.2 ⟨?_, hrest⟩
    exact List.not_mem_cons_of_ne_of_not_mem (Ne.symm hc) hfirst

theorem notMem_line (text : List Char) (n : Nat) : '\n' ∉ line text n := by
  rw [line]
  cases h : (lines text)[n]? with
  | none => exact List.not_mem_nil
  | some line => exact notMem_lines text line (List.mem_of_getElem? h)

theorem line_start (h : '\n' ∉ front) (hn : c ≠ '\n') (hr : c ≠ '\r') :
    ∃ back, line (front ++ c :: text) 0 = front ++ c :: back := by
  induction front with
  | nil =>
    rw [List.nil_append, line_zero, lines_cons hn fun hc => absurd hc hr]
    exact ⟨_, rfl⟩
  | cons d front ih =>
    obtain ⟨hd, hfront⟩ := List.ne_and_not_mem_of_not_mem_cons h
    obtain ⟨back, hback⟩ := ih hfront
    have hhead : (front ++ c :: text).head? ≠ some '\n' := by
      cases front with
      | nil => simpa using hn
      | cons e front => simpa using Ne.symm (List.ne_of_not_mem_cons hfront)
    rw [line_zero] at hback
    rw [List.cons_append, line_zero, lines_cons (Ne.symm hd) fun _ => hhead, List.headD_cons, hback]
    exact ⟨back, rfl⟩

theorem line_whole (h : '\n' ∉ front) : line front 0 = front := by
  induction front with
  | nil => rfl
  | cons d front ih =>
    obtain ⟨hd, hfront⟩ := List.ne_and_not_mem_of_not_mem_cons h
    have hhead : front.head? ≠ some '\n' := fun hm => hfront (List.mem_of_head? hm)
    have hline := ih hfront
    rw [line_zero] at hline
    rw [line_zero, lines_cons (Ne.symm hd) fun _ => hhead, List.headD_cons, hline]

theorem notMem_rtakeWhile (text : List Char) : '\n' ∉ text.rtakeWhile (· ≠ '\n') := by
  intro h
  simpa using List.mem_rtakeWhile_imp h

/-- What follows the last line feed of a text, if there is one. -/
theorem rtakeWhile_cases (text : List Char) : text.rtakeWhile (· ≠ '\n') = text ∨
    ∃ before, text = before ++ '\n' :: text.rtakeWhile (· ≠ '\n') := by
  have hsplit := List.rdropWhile_append_rtakeWhile (p := (· ≠ '\n')) (l := text)
  by_cases hd : text.rdropWhile (· ≠ '\n') = []
  · rw [hd, List.nil_append] at hsplit
    exact .inl hsplit
  · have hlast := List.rdropWhile_last_not (· ≠ '\n') text hd
    have hfeed : (text.rdropWhile (· ≠ '\n')).getLast hd = '\n' := by simpa using hlast
    have hends := List.dropLast_append_getLast hd
    rw [hfeed] at hends
    rw [← hends, List.append_assoc] at hsplit
    exact .inr ⟨_, hsplit.symm⟩

/-- The line with the number of line feeds before a place begins behind the last of them. -/
theorem line_count (front text : List Char) :
    line (front ++ text) (front.count '\n') =
      line (front.rtakeWhile (· ≠ '\n') ++ text) 0 := by
  have hnone := List.count_eq_zero.2 (notMem_rtakeWhile front)
  obtain hall | ⟨before, hbefore⟩ := rtakeWhile_cases front
  · rw [hall] at hnone ⊢
    rw [hnone]
  · generalize front.rtakeWhile (· ≠ '\n') = behind at hnone hbefore ⊢
    rw [hbefore, List.count_append, List.count_cons_self, hnone, List.append_assoc]
    exact line_behind before (behind ++ text)

theorem getElem?_dropWhile (h : (text.takeWhile p).length ≤ n) :
    (text.dropWhile p)[n - (text.takeWhile p).length]? = text[n]? := by
  have hsplit := List.takeWhile_append_dropWhile (p := p) (l := text)
  conv => rhs; rw [← hsplit]
  rw [List.getElem?_append_right h]

theorem length_takeWhile_le (h : text[n]? = some c) (hc : ¬ p c) :
    (text.takeWhile p).length ≤ n := by
  apply Nat.le_of_not_lt
  intro hn
  have hsplit := List.takeWhile_append_dropWhile (p := p) (l := text)
  rw [← hsplit, List.getElem?_append_left hn] at h
  exact hc (List.all_eq_true.1 List.all_takeWhile c (List.mem_of_getElem? h))

theorem trimEnd_isPrefix (text : List Char) : trimEnd text <+: text :=
  List.rdropWhile_prefix isSpace text

theorem getElem?_trimEnd_or (h : text[n]? = some c) :
    (trimEnd text)[n]? = some c ∨ (trimEnd text).length ≤ n := by
  obtain hn | hn := Nat.lt_or_ge n (trimEnd text).length
  · obtain ⟨rest, hrest⟩ := trimEnd_isPrefix text
    rw [← hrest, List.getElem?_append_left hn] at h
    exact .inl h
  · exact .inr hn

theorem getElem?_trimEnd (h : text[n]? = some c) (hc : isSpace c = false) :
    (trimEnd text)[n]? = some c := by
  obtain ht | hn := getElem?_trimEnd_or h
  · exact ht
  · have hsplit : trimEnd text ++ text.rtakeWhile isSpace = text :=
      List.rdropWhile_append_rtakeWhile
    rw [← hsplit, List.getElem?_append_right hn] at h
    have hspace := List.mem_rtakeWhile_imp (List.mem_of_getElem? h)
    rw [hspace] at hc
    cases hc

end ModuleSyntax.Proofs.TextLines
