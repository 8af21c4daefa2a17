import ModuleSyntax.Proofs.Printer

namespace ModuleSyntax.Proofs.PrinterSpelled

open Symbols WellFormed Printer

theorem allSpelled_nil : AllSpelled [] := fun _ h => nomatch h

theorem spelled_name {text : String} (h : isFree text) : Spelled (name text) := of_decide_eq_true h

theorem enclosed_spelled (place given : Power) {ts : List Symbol} (h : AllSpelled ts) :
    AllSpelled (enclosed place given ts) := by
  unfold enclosed
  split
  · exact h
  · exact allSpelled_cons.2 ⟨rfl, allSpelled_append.2 ⟨h, allSpelled_cons.2 ⟨rfl, allSpelled_nil⟩⟩⟩

mutual

theorem writeExpression_spelled : ∀ e : Expression Unit, wellFormedExpression e →
    AllSpelled (writeExpression e)
  | .int digits _, h => allSpelled_cons.2 ⟨of_decide_eq_true h, allSpelled_nil⟩
  | .string text _, h => allSpelled_cons.2 ⟨of_decide_eq_true h, allSpelled_nil⟩
  | .bool true _, _ => allSpelled_cons.2 ⟨rfl, allSpelled_nil⟩
  | .bool false _, _ => allSpelled_cons.2 ⟨rfl, allSpelled_nil⟩
  | .symbol text _, h => by
    rw [wellFormedExpression] at h
    exact allSpelled_cons.2 ⟨spelled_name h, allSpelled_nil⟩
  | .array es _, h => by
    rw [wellFormedExpression] at h
    rw [writeExpression]
    simp only [allSpelled_append, allSpelled_cons, List.cons_append]
    exact ⟨rfl, writeItems_spelled es h, rfl, allSpelled_nil⟩
  | .call f es _, h => by
    rw [wellFormedExpression, Bool.and_eq_true] at h
    rw [writeExpression]
    simp only [allSpelled_append, allSpelled_cons]
    exact ⟨enclosed_spelled _ _ (writeExpression_spelled f h.1), rfl, writeItems_spelled es h.2,
      rfl, allSpelled_nil⟩
  | .index b e _, h => by
    rw [wellFormedExpression, Bool.and_eq_true] at h
    rw [writeExpression]
    simp only [allSpelled_append, allSpelled_cons]
    exact ⟨⟨enclosed_spelled _ _ (writeExpression_spelled b h.1), rfl,
      enclosed_spelled _ _ (writeExpression_spelled e h.2)⟩, rfl, allSpelled_nil⟩
  | .emptyIndex b _, h => by
    rw [wellFormedExpression] at h
    rw [writeExpression]
    simp only [allSpelled_append, allSpelled_cons]
    exact ⟨enclosed_spelled _ _ (writeExpression_spelled b h), rfl, rfl, allSpelled_nil⟩
  | .assignment a e _, h => by
    rw [wellFormedExpression, Bool.and_eq_true, Bool.and_eq_true] at h
    rw [writeExpression]
    simp only [allSpelled_append, allSpelled_cons]
    exact ⟨enclosed_spelled _ _ (writeExpression_spelled a h.1.2), rfl,
      enclosed_spelled _ _ (writeExpression_spelled e h.2)⟩
  | .negation e _, h => by
    rw [wellFormedExpression] at h
    rw [writeExpression]
    exact allSpelled_cons.2 ⟨rfl, enclosed_spelled _ _ (writeExpression_spelled e h)⟩
  | .binary op a b _, h => by
    rw [wellFormedExpression, Bool.and_eq_true] at h
    rw [writeExpression]
    simp only [allSpelled_append, allSpelled_cons]
    exact ⟨enclosed_spelled _ _ (writeExpression_spelled a h.1), rfl,
      enclosed_spelled _ _ (writeExpression_spelled b h.2)⟩

theorem writeItems_spelled : ∀ es : List (Expression Unit), wellFormedExpressions es →
    AllSpelled (writeItems es)
  | [], _ => by
    rw [writeItems]
    exact allSpelled_nil
  | [e], h => by
    rw [wellFormedExpressions, Bool.and_eq_true] at h
    rw [writeItems]
    exact enclosed_spelled _ _ (writeExpression_spelled e h.1)
  | e :: e' :: es, h => by
    rw [wellFormedExpressions, Bool.and_eq_true] at h
    rw [writeItems]
    · simp only [allSpelled_append, allSpelled_cons]
      exact ⟨enclosed_spelled _ _ (writeExpression_spelled e h.1), rfl,
        writeItems_spelled (e' :: es) h.2⟩
    · exact fun hn => List.cons_ne_nil e' es hn

end

theorem writeFull_spelled {e : Expression Unit} (h : wellFormedExpression e) :
    AllSpelled (writeFull e) := enclosed_spelled _ _ (writeExpression_spelled e h)

theorem writeType_spelled {t : TypeRef Unit} (h : wellFormedType t) : AllSpelled (writeType t) := by
  refine allSpelled_cons.2 ⟨?_, fun s hs => ?_⟩
  · unfold wellFormedType at h
    cases hb : t.base with
    | primitive p => rfl
    | named text =>
      rw [hb] at h
      exact spelled_name h
  · obtain ⟨ts, ht, hs⟩ := List.mem_flatten.1 hs
    rw [(List.mem_replicate.1 ht).2] at hs
    simp only [List.mem_cons, List.not_mem_nil, or_false] at hs
    obtain rfl | rfl := hs <;> rfl

theorem writeCondition_spelled {e : Expression Unit} (h : wellFormedExpression e) :
    AllSpelled (writeCondition e) := by
  simp only [writeCondition, allSpelled_append, allSpelled_cons, List.cons_append]
  exact ⟨rfl, writeFull_spelled h, rfl, allSpelled_nil⟩

mutual

theorem writeStatement_spelled : ∀ s : Statement Unit, wellFormedStatement s →
    AllSpelled (writeStatement s)
  | .variableDecl t text _, h => by
    rw [wellFormedStatement, Bool.and_eq_true] at h
    rw [writeStatement]
    simp only [allSpelled_append, allSpelled_cons]
    exact ⟨writeType_spelled h.1, spelled_name h.2, rfl, allSpelled_nil⟩
  | .whileLoop c body _ _, h => by
    rw [wellFormedStatement, Bool.and_eq_true] at h
    rw [writeStatement]
    simp only [allSpelled_append, allSpelled_cons, List.cons_append]
    exact ⟨rfl, writeCondition_spelled h.1, rfl, writeStatements_spelled body h.2, rfl,
      allSpelled_nil⟩
  | .ifThen c yes _, h => by
    rw [wellFormedStatement, Bool.and_eq_true] at h
    rw [writeStatement]
    simp only [allSpelled_append, allSpelled_cons, List.cons_append]
    exact ⟨rfl, writeCondition_spelled h.1, writeStatement_spelled yes h.2⟩
  | .ifElse c yes no _, h => by
    simp only [wellFormedStatement, Bool.and_eq_true] at h
    rw [writeStatement]
    simp only [allSpelled_append, allSpelled_cons, List.cons_append]
    exact ⟨rfl, ⟨writeCondition_spelled h.1.1.1, writeStatement_spelled yes h.1.1.2⟩, rfl,
      writeStatement_spelled no h.2⟩
  | .breakLoop _, _ => by
    rw [writeStatement]
    exact allSpelled_cons.2 ⟨rfl, allSpelled_cons.2 ⟨rfl, allSpelled_nil⟩⟩
  | .returnValue none _, _ => by
    rw [writeStatement]
    exact allSpelled_cons.2 ⟨rfl, allSpelled_cons.2 ⟨rfl, allSpelled_nil⟩⟩
  | .returnValue (some e) _, h => by
    rw [wellFormedStatement] at h
    rw [writeStatement]
    simp only [allSpelled_append, allSpelled_cons, List.cons_append]
    exact ⟨rfl, writeFull_spelled h, rfl, allSpelled_nil⟩
  | .evaluation e _, h => by
    rw [wellFormedStatement] at h
    rw [writeStatement]
    exact allSpelled_append.2 ⟨writeFull_spelled h, allSpelled_cons.2 ⟨rfl, allSpelled_nil⟩⟩
  | .block body _, h => by
    rw [wellFormedStatement] at h
    rw [writeStatement]
    simp only [allSpelled_append, allSpelled_cons, List.cons_append]
    exact ⟨rfl, writeStatements_spelled body h, rfl, allSpelled_nil⟩

theorem writeStatements_spelled : ∀ ss : List (Statement Unit), wellFormedStatements ss →
    AllSpelled (writeStatements ss)
  | [], _ => by
    rw [writeStatements]
    exact allSpelled_nil
  | s :: ss, h => by
    rw [wellFormedStatements, Bool.and_eq_true] at h
    rw [writeStatements]
    exact allSpelled_append.2 ⟨writeStatement_spelled s h.1, writeStatements_spelled ss h.2⟩

end

theorem writeParameters_spelled {ps : List (Parameter Unit)} (h : ps.all wellFormedParameter) :
    AllSpelled (writeParameters ps) := by
  have hone : ∀ p : Parameter Unit, wellFormedParameter p → AllSpelled (writeParameter p) :=
    fun p h => by
      rw [wellFormedParameter, Bool.and_eq_true] at h
      exact allSpelled_append.2 ⟨writeType_spelled h.1,
        allSpelled_cons.2 ⟨spelled_name h.2, allSpelled_nil⟩⟩
  induction ps with
  | nil => exact allSpelled_nil
  | cons p ps ih =>
    rw [List.all_cons, Bool.and_eq_true] at h
    cases ps with
    | nil => exact hone p h.1
    | cons p' ps => exact allSpelled_append.2 ⟨hone p h.1, allSpelled_cons.2 ⟨rfl, ih h.2⟩⟩

theorem writeVisibility_spelled (v : Bool) : AllSpelled (writeVisibility v) := by
  cases v with
  | false => exact allSpelled_nil
  | true => exact allSpelled_cons.2 ⟨rfl, allSpelled_nil⟩

theorem writeDeclaration_spelled {d : Declaration Unit} (h : wellFormedDeclaration d) :
    AllSpelled (writeDeclaration d) := by
  cases d with
  | field v t text note =>
    simp only [wellFormedDeclaration, Bool.and_eq_true] at h
    simp only [writeDeclaration, allSpelled_append, allSpelled_cons]
    exact ⟨⟨writeVisibility_spelled v, writeType_spelled h.1⟩, spelled_name h.2, rfl,
      allSpelled_nil⟩
  | typeAlias v text literal note =>
    simp only [wellFormedDeclaration, Bool.and_eq_true] at h
    simp only [writeDeclaration, allSpelled_append, allSpelled_cons]
    exact ⟨writeVisibility_spelled v, rfl, spelled_name h.1, rfl, of_decide_eq_true h.2, rfl,
      allSpelled_nil⟩
  | function v t text ps body note =>
    simp only [wellFormedDeclaration, Bool.and_eq_true] at h
    simp only [writeDeclaration, allSpelled_append, allSpelled_cons, List.cons_append]
    exact ⟨⟨⟨writeVisibility_spelled v, writeType_spelled h.1.1.1⟩, spelled_name h.1.1.2, rfl,
      writeParameters_spelled h.1.2, rfl, allSpelled_nil⟩, rfl,
      writeStatements_spelled body.body h.2, rfl, allSpelled_nil⟩

theorem writeModule_spelled {m : Module Unit} (h : wellFormedModule m) :
    AllSpelled (writeModule m) := by
  simp only [wellFormedModule, Bool.and_eq_true] at h
  obtain ⟨⟨hname, himports⟩, hdeclarations⟩ := h
  simp only [writeModule, allSpelled_append, allSpelled_cons, List.cons_append]
  refine ⟨rfl, spelled_name hname, rfl, ⟨fun s hs => ?_, fun s hs => ?_⟩, rfl, allSpelled_nil⟩
  · obtain ⟨i, hi, hs⟩ := List.mem_flatMap.1 hs
    have hfree : isFree i.name := List.all_eq_true.1 himports i hi
    have hline : AllSpelled (writeImport i) := by
      simp only [writeImport, allSpelled_cons]
      exact ⟨rfl, spelled_name hfree, rfl, allSpelled_nil⟩
    exact hline s hs
  · obtain ⟨d, hd, hs⟩ := List.mem_flatMap.1 hs
    exact writeDeclaration_spelled (List.all_eq_true.1 hdeclarations d hd) s hs

end ModuleSyntax.Proofs.PrinterSpelled
