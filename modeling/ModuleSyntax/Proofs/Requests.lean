import ModuleSyntax.Proofs.Lexemes
import ModuleSyntax.Proofs.Places
import ModuleSyntax.Proofs.Skipping

namespace ModuleSyntax.Proofs.Requests

open Symbols Lexemes Separation Places Skipping Steps

inductive Request where
  | next
  | item
  | skip (count : Nat)

namespace Request

def serve : Request → Lexer → Option (Except Diagnostic Token) × Lexer
  | next, l => (some l.next.1, l.next.2)
  | item, l => l.item
  | skip count, l => (none, l.skip count)

end Request

def given : Option (Except Diagnostic Token) → List Token
  | some (.ok t) => [t]
  | some (.error _) | none => []

def serveAll : List Request → Lexer → List Token × Lexer
  | [], l => ([], l)
  | r :: rs, l =>
    (given (r.serve l).1 ++ (serveAll rs (r.serve l).2).1, (serveAll rs (r.serve l).2).2)

/-- What a request can do: move over a text and give no token, or pass over trivia and a token. -/
inductive Served (l : Lexer) : Option (Except Diagnostic Token) → Lexer → Prop
  | past {answer : Option (Except Diagnostic Token)} {after : Lexer} {w : List Char}
      (hg : given answer = []) (ht : l.rest = w ++ after.rest)
      (hp : after.position = l.position.afterText w) : Served l answer after
  | token {t : Token} {after : Lexer} {w : List Char} (hs : Spelled (symbol t))
      (h : Passes l w (.ok t) after) : Served l (some (.ok t)) after

/-- The reader has come through `front`, and its place says so. -/
structure Behind (source front : List Char) (l : Lexer) : Prop where
  text : source = front ++ l.rest
  place : l.position = Position.start.afterText front

variable {l after : Lexer} {answer : Option (Except Diagnostic Token)} {rs : List Request}
  {t : Token} {ts : List Token} {source front w : List Char}

theorem served_next {e : Except Diagnostic Token} (h : l.next = (e, after)) :
    Served l (some e) after := by
  obtain ⟨w, hw⟩ := next_passes h
  cases e with
  | ok t => exact .token (next_spelled h) hw
  | error d =>
    have hposition := hw.position
    rw [found, List.append_nil] at hposition
    exact .past rfl hw.text hposition

theorem Served.finish (h : Served l answer after) (b : Bool) :
    Served l answer { after with finished := b } := by
  cases h with
  | past hg ht hp => exact .past hg ht hp
  | token hs h => exact .token hs ⟨h.text, h.trivia, h.position, h.span, h.ending⟩

theorem serve_served (r : Request) (l : Lexer) : Served l (r.serve l).1 (r.serve l).2 := by
  cases r with
  | next => exact served_next rfl
  | item =>
    rw [Request.serve, Lexer.item]
    split
    · exact .past (w := []) rfl rfl rfl
    · exact (served_next rfl).finish _
  | skip count => exact .past rfl (List.take_append_drop count l.rest).symm rfl

theorem Behind.past (hb : Behind source front l) (ht : l.rest = w ++ after.rest)
    (hp : after.position = l.position.afterText w) : Behind source (front ++ w) after where
  text := by rw [hb.text, ht, List.append_assoc]
  place := by rw [hp, hb.place, Position.afterText_append]

theorem Behind.served (hb : Behind source front l) (h : Served l answer after) :
    ∃ front', Behind source front' after := by
  cases h with
  | past hg ht hp => exact ⟨_, hb.past ht hp⟩
  | token hs h => exact ⟨_, hb.past (h.text.trans (List.append_assoc ..).symm) h.position⟩

theorem Behind.run (hb : Behind source front l) (rs : List Request) :
    ∃ front', Behind source front' (serveAll rs l).2 := by
  induction rs generalizing l front with
  | nil => exact ⟨front, hb⟩
  | cons r rs ih =>
    obtain ⟨front', hb'⟩ := hb.served (serve_served r l)
    exact ih hb'

theorem behind_start (source : String) (file : Option String) :
    Behind source.toList [] (Lexer.ofString source file) := ⟨rfl, rfl⟩

theorem Behind.counts (hb : Behind source front l) (h : source.length < UInt32.size) :
    Counts front l.position := by
  rw [hb.place]
  apply counts_afterText
  rw [hb.text, List.length_append] at h
  omega

theorem Behind.fits (hb : Behind source front l) (h : source.length < UInt32.size) :
    Fits l.position l.rest := by
  rw [hb.text] at h
  rw [hb.place]
  exact (fits_start h).append.2

theorem Behind.token (hb : Behind source front l) (h : source.length < UInt32.size)
    (hw : Passes l w (.ok t) after) : Counts (front ++ w) t.span.start ∧
      Counts (front ++ w ++ t.lexeme) t.span.stop ∧
      (t.kind = .eof → t.span.start = t.span.stop ∧ Counts source t.span.stop) := by
  have hlexeme : Behind source (front ++ w ++ t.lexeme) after := by
    rw [List.append_assoc]
    exact hb.past (hw.text.trans (List.append_assoc ..).symm) hw.position
  have hstart : t.span.start = Position.start.afterText (front ++ w) := by
    rw [hw.start, hb.place, Position.afterText_append]
  have hcounts := hlexeme.counts h
  rw [← hw.stop] at hcounts
  refine ⟨?_, hcounts, fun ht => ?_⟩
  · rw [hstart]
    apply counts_afterText
    rw [hlexeme.text, List.length_append, List.length_append] at h
    omega
  · obtain ⟨-, -, hempty, hrest⟩ := hw.last ht
    have hsource : source = front ++ w := by
      rw [hlexeme.text, hempty, hrest, List.append_nil, List.append_nil]
    rw [hempty, List.append_nil, ← hsource] at hcounts
    refine ⟨?_, hcounts⟩
    rw [hstart, hw.stop, hlexeme.place, hempty, List.append_nil]

/-- From a place on, tokens come one behind the other, and every one but an end has a width. -/
structure Ordered (p : Position) (ts : List Token) : Prop where
  behind : ∀ t ∈ ts, Reaches p t.span.start
  wide : ∀ t ∈ ts, t.kind ≠ .eof → Precedes t.span.start t.span.stop
  apart : ts.Pairwise fun t u => Reaches t.span.stop u.span.start

variable {p q : Position}

theorem ordered_nil (p : Position) : Ordered p [] where
  behind _ ht := absurd ht List.not_mem_nil
  wide _ ht := absurd ht List.not_mem_nil
  apart := .nil

theorem Ordered.before (hp : Reaches p q) (h : Ordered q ts) : Ordered p ts where
  behind t ht := hp.trans (h.behind t ht)
  wide := h.wide
  apart := h.apart

theorem Ordered.cons (hr : Reaches t.span.start t.span.stop)
    (hw : t.kind ≠ .eof → Precedes t.span.start t.span.stop) (h : Ordered t.span.stop ts) :
    Ordered t.span.start (t :: ts) where
  behind := List.forall_mem_cons.2 ⟨.inl rfl, (h.before hr).behind⟩
  wide := List.forall_mem_cons.2 ⟨hw, h.wide⟩
  apart := .cons h.behind h.apart

/-- What is given comes before what is found behind it. -/
theorem Served.ordered (hs : Served l answer after) (hf : Fits l.position l.rest)
    (h : Ordered after.position ts) : Ordered l.position (given answer ++ ts) := by
  cases hs with
  | @past _ _ w hg ht hp =>
    rw [ht] at hf
    rw [hp] at h
    rw [hg]
    exact h.before hf.append.1.reaches
  | @token t _ w hs hw =>
    rw [hw.text] at hf
    obtain ⟨htrivia, hf⟩ := hf.append
    rw [← hw.start] at hf
    have hlexeme : Fits t.span.start t.lexeme := hf.append.1
    have hreaches := htrivia.reaches
    rw [← hw.start] at hreaches
    refine Ordered.before hreaches (Ordered.cons ?_ (fun hk => ?_) ?_)
    · rw [hw.scanned]
      exact hlexeme.reaches
    · rw [hw.scanned]
      exact hlexeme.precedes (written_ne_nil hs hk)
    · rwa [hw.stop]

/-- Tokens are given in the order in which their lexemes stand, whatever is asked for. -/
theorem Behind.ordered (hb : Behind source front l) (h : source.length < UInt32.size)
    (rs : List Request) : Ordered l.position (serveAll rs l).1 := by
  induction rs generalizing l front with
  | nil => exact ordered_nil _
  | cons r rs ih =>
    have hs := serve_served r l
    obtain ⟨front', hb'⟩ := hb.served hs
    exact hs.ordered (hb.fits h) (ih hb')

/-- Whatever a reader is asked for, it has come through some of its source, and in a source that
the places can count, its place counts that. A token that it gives then stands behind trivia, from
the place that counts what is before its lexeme to the place that counts the lexeme too, and the end
where all of the source is counted. All tokens but the end have a width, and none begins before one
given earlier has ended. -/
theorem requests_counted {source : String} {file : Option String}
    (h : source.length < UInt32.size) (hr : serveAll rs (Lexer.ofString source file) = (ts, l)) :
    ∃ front, source.toList = front ++ l.rest ∧ Counts front l.position ∧
      (∀ (r : Request) t after, r.serve l = (some (.ok t), after) →
        ∃ w, l.rest = w ++ (t.lexeme ++ after.rest) ∧ Trivia (t.lexeme ++ after.rest) w ∧
          Counts (front ++ w) t.span.start ∧ Counts (front ++ w ++ t.lexeme) t.span.stop ∧
          (t.kind = .eof → t.span.start = t.span.stop ∧ Counts source.toList t.span.stop)) ∧
      (∀ t ∈ ts, t.kind ≠ .eof → Precedes t.span.start t.span.stop) ∧
      ts.Pairwise fun t u => Reaches t.span.stop u.span.start := by
  obtain ⟨rfl, rfl⟩ := Prod.mk.inj hr
  rw [← String.length_toList] at h
  have hstart := behind_start source file
  have hordered := hstart.ordered h rs
  obtain ⟨front, hb⟩ := hstart.run rs
  refine ⟨front, hb.text, hb.counts h, fun r t after ht => ?_, hordered.wide, hordered.apart⟩
  have hs := serve_served r (serveAll rs (Lexer.ofString source file)).2
  rw [ht] at hs
  cases hs with
  | past hg => cases hg
  | @token _ _ w hs hw => exact ⟨w, hw.text, hw.trivia, hb.token h hw⟩

def letterAndText : String := "é\"a\nb\" //\n"

def aroundLetter : List Request := [.next, .skip 1, .item, .next]

theorem requests_counted_letter :
    letterAndText.length < UInt32.size ∧ ∃ t u l front,
      serveAll aroundLetter (Lexer.ofString letterAndText none) = ([t, u], l) ∧
      t.span = ⟨⟨0, 1⟩, ⟨1, 2⟩⟩ ∧ u.span = ⟨⟨2, 0⟩, ⟨2, 0⟩⟩ ∧
      letterAndText.toList = front ++ l.rest ∧ Counts front l.position ∧
      Precedes t.span.start t.span.stop ∧ Reaches t.span.stop u.span.start := by
  have h : letterAndText.length < UInt32.size := by decide
  have hr : serveAll aroundLetter (Lexer.ofString letterAndText none) = (_, _) := rfl
  obtain ⟨front, htext, hcounts, -, hwide, hapart⟩ := requests_counted h hr
  refine ⟨h, _, _, _, front, hr, rfl, rfl, htext, hcounts, ?_, ?_⟩
  · exact hwide _ List.mem_cons_self Kind.noConfusion
  · exact (List.pairwise_cons.1 hapart).1 _ List.mem_cons_self

end ModuleSyntax.Proofs.Requests
