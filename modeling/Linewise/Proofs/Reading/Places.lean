/-
Places in a line.

* `Place`, `Place.next?`, `Place.read?` — where in a line the next token stands, and the
  place after it or after a list of tokens;
* `Place.isEnd` — the places at which a line is complete;
* `StatementWord`, `ExpressionWord` — the tokens of the lines that the grammar derives;
* `Recognizes`, `recognizes_statement`, `recognizes_expression` — these are the words that
  lead to such a place;
* `Place.closing`, `Recognizes.begins` — from every place a word leads there, so what is
  read is the beginning of a line.

Design notes: a place tells more than what can come next.  An expression may be a line of
its own or wait for the semicolon of its statement, and only in the one case it ends a line.
-/
import Linewise.Proofs.Reading.Stance

namespace Linewise

/-- Where in a line the next token stands. -/
inductive Place
  /-- At the first token of a statement. -/
  | start
  /-- After the name that an assignment starts with. -/
  | named
  /-- In an expression, which is a line of its own or the value of a statement. -/
  | value (alone : Bool) (s : Stance)
  /-- After the semicolon. -/
  | done
deriving DecidableEq, Repr

namespace Place

/-- The place after a token, if the token may come next. -/
def next? : Place → Kind → Option Place
  | start, .name _ => some named
  | start, .print | named, .assign => some (value false (.operand true 0))
  | value alone s, k =>
    match s.next? k with
    | some s => some (value alone s)
    | none => if s = .operator 0 ∧ k = .semicolon then some done else none
  | _, _ => none

/-- The place after a list of tokens, if they may come next. -/
def read? (p : Place) (word : List Kind) : Option Place :=
  word.foldlM Place.next? p

/-- The places at which a line is complete. -/
def isEnd : Place → Bool
  | value true (.operator 0) | done => true
  | _ => false

variable {p q : Place} {alone : Bool} {s s' : Stance} {k : Kind} {word : List Kind}

@[simp] theorem read?_nil (p : Place) : p.read? [] = some p := rfl

@[simp] theorem read?_cons (p : Place) (k : Kind) (word : List Kind) :
    p.read? (k :: word) = (p.next? k).bind fun next => next.read? word := rfl

theorem read?_append (p : Place) (v w : List Kind) :
    p.read? (v ++ w) = (p.read? v).bind fun next => next.read? w := by
  rw [read?, List.foldlM_append]
  rfl

theorem next?_value (alone : Bool) (h : s.next? k = some s') :
    (value alone s).next? k = some (value alone s') := by
  simp only [next?, h]

theorem next?_value_of_none (alone : Bool) (h : s.next? k = none) : (value alone s).next? k =
    if s = .operator 0 ∧ k = .semicolon then some done else none := by
  simp only [next?, h]

theorem next?_endOfLine (p : Place) : p.next? .endOfLine = none := by
  cases p with
  | value alone s =>
    rw [next?_value_of_none alone s.next?_endOfLine]
    exact if_neg (by simp)
  | _ => rfl

/-! ### Within an expression -/

/-- Within an expression a token goes on with it, or it is the semicolon after it. -/
theorem next?_value_eq_some_iff : (value alone s).next? k = some q ↔
    (∃ s', s.next? k = some s' ∧ q = value alone s') ∨
      s = .operator 0 ∧ k = .semicolon ∧ q = done := by
  constructor
  · intro h
    cases hnext : s.next? k with
    | some s' =>
      rw [next?_value alone hnext] at h
      exact Or.inl ⟨s', rfl, (Option.some.inj h).symm⟩
    | none =>
      rw [next?_value_of_none alone hnext] at h
      split at h
      · next hend => exact Or.inr ⟨hend.1, hend.2, (Option.some.inj h).symm⟩
      · exact absurd h (by simp)
  · rintro (⟨s', hnext, rfl⟩ | ⟨rfl, rfl, rfl⟩)
    · exact next?_value alone hnext
    · rfl

theorem read?_done_iff : done.read? word = some q ↔ word = [] ∧ q = done := by
  cases word with
  | nil => simp [eq_comm]
  | cons k word => simp [next?]

theorem read?_value (alone : Bool) (h : s.read? word = some s') :
    (value alone s).read? word = some (value alone s') := by
  induction word generalizing s with
  | nil => simpa using h
  | cons k word ih =>
    rw [Stance.read?_cons] at h
    obtain ⟨next, hnext, h⟩ := Option.bind_eq_some_iff.mp h
    rw [read?_cons, next?_value alone hnext]
    exact ih h

/-- Within an expression the tokens go on with it, or the semicolon after it is the last of
them. -/
theorem read?_value_iff : (value alone s).read? word = some q ↔
    (∃ s', s.read? word = some s' ∧ q = value alone s') ∨
      ∃ v, word = v ++ [.semicolon] ∧ s.read? v = some (.operator 0) ∧ q = done := by
  constructor
  · intro h
    induction word generalizing s with
    | nil => exact Or.inl ⟨s, rfl, by simpa using h.symm⟩
    | cons k word ih =>
      rw [read?_cons] at h
      obtain ⟨next, hnext, h⟩ := Option.bind_eq_some_iff.mp h
      rcases next?_value_eq_some_iff.mp hnext with ⟨s', hs, rfl⟩ | ⟨rfl, rfl, rfl⟩
      · rcases ih h with ⟨last, hlast, rfl⟩ | ⟨v, rfl, hv, rfl⟩
        · exact Or.inl ⟨last, by simp [hs, hlast], rfl⟩
        · exact Or.inr ⟨k :: v, rfl, by simp [hs, hv], rfl⟩
      · obtain ⟨rfl, rfl⟩ := read?_done_iff.mp h
        exact Or.inr ⟨[], rfl, rfl, rfl⟩
  · rintro (⟨s', hs, rfl⟩ | ⟨v, rfl, hv, rfl⟩)
    · exact read?_value alone hs
    · rw [read?_append, read?_value alone hv]
      rfl

end Place

/-! ### Lines -/

/-- Every number of a list of tokens has at most one point. -/
def OnePoint (word : List Kind) : Prop :=
  ∀ s, Kind.number s ∈ word → s.toList.count '.' ≤ 1

/-- The tokens of a statement. -/
def StatementWord (word : List Kind) : Prop :=
  OnePoint word ∧ ∃ d : StatementDerivation, d.word = word

/-- The tokens of an expression, which a semicolon may end. -/
def ExpressionWord (word : List Kind) : Prop :=
  OnePoint word ∧ ∃ d : Derivation .expression, d.word = word ∨ d.word ++ [.semicolon] = word

/-- The words of `L` are those that lead from the place `p` to one at which a line is
complete; that is said of words whose numbers are numerals. -/
structure Recognizes (p : Place) (L : List Kind → Prop) : Prop where
  onePoint : ∀ {word}, L word → OnePoint word
  sound : ∀ {word}, L word → ∃ q, p.read? word = some q ∧ q.isEnd = true
  complete : ∀ {word q}, OnePoint word → Readable word → p.read? word = some q →
    q.isEnd = true → L word

theorem recognizes_statement : Recognizes .start StatementWord where
  onePoint h := h.1
  sound := by
    rintro word ⟨-, d, rfl⟩
    have hvalue : (Place.value false (.operand true 0)).read? (d.value.word ++ [.semicolon]) =
        some .done :=
      Place.read?_value_iff.mpr (Or.inr ⟨_, rfl, Stance.read?_word d.value 0 fun _ => rfl, rfl⟩)
    refine ⟨.done, ?_, rfl⟩
    rw [StatementDerivation.word, List.append_assoc, Place.read?_append]
    cases d with
    | assign name d => exact hvalue
    | print d => exact hvalue
  complete := by
    intro word q hpoint hnum hread hend
    refine ⟨hpoint, ?_⟩
    -- What follows the opening of a statement is an expression with its semicolon.
    have hvalue : ∀ {rest : List Kind}, Readable rest →
        (Place.value false (.operand true 0)).read? rest = some q →
        ∃ d : Derivation .expression, d.word ++ [.semicolon] = rest := by
      intro rest hnum hread
      rcases Place.read?_value_iff.mp hread with ⟨s, -, rfl⟩ | ⟨v, rfl, hv, rfl⟩
      · exact absurd hend (by simp [Place.isEnd])
      · obtain ⟨d, rfl, -⟩ :=
          Stance.exists_derivation hv (readable_append.mp hnum).1 Kind.endsGroup_semicolon
        exact ⟨d, rfl⟩
    cases word with
    | nil =>
      obtain rfl : Place.start = q := by simpa using hread
      exact absurd hend (by simp [Place.isEnd])
    | cons first word =>
      obtain ⟨next, hnext, hread⟩ := Option.bind_eq_some_iff.mp hread
      cases first with
      | print =>
        obtain rfl : _ = next := Option.some.inj hnext
        obtain ⟨d, rfl⟩ := hvalue ((readable_cons (by simp)).mp hnum) hread
        exact ⟨.print d, rfl⟩
      | name name =>
        obtain rfl : Place.named = next := Option.some.inj hnext
        cases word with
        | nil =>
          obtain rfl : Place.named = q := by simpa using hread
          exact absurd hend (by simp [Place.isEnd])
        | cons sign word =>
          obtain ⟨next, hnext, hread⟩ := Option.bind_eq_some_iff.mp hread
          obtain ⟨rfl, rfl⟩ : sign = .assign ∧ Place.value false (.operand true 0) = next := by
            cases sign <;> simp_all [Place.next?]
          obtain ⟨d, rfl⟩ := hvalue
            ((readable_cons (by simp)).mp ((readable_cons (by simp)).mp hnum)) hread
          exact ⟨.assign name d, rfl⟩
      | _ => exact absurd hnext (by simp [Place.next?])

theorem recognizes_expression : Recognizes (.value true (.operand true 0)) ExpressionWord where
  onePoint h := h.1
  sound := by
    rintro word ⟨-, d, rfl | rfl⟩
    · exact ⟨_, Place.read?_value true (Stance.read?_word d 0 fun _ => rfl), rfl⟩
    · exact ⟨_, Place.read?_value_iff.mpr
        (Or.inr ⟨_, rfl, Stance.read?_word d 0 fun _ => rfl, rfl⟩), rfl⟩
  complete := by
    intro word q hpoint hnum hread hend
    refine ⟨hpoint, ?_⟩
    rcases Place.read?_value_iff.mp hread with ⟨s, hs, rfl⟩ | ⟨v, rfl, hv, rfl⟩
    · obtain rfl : s = .operator 0 := by
        rcases s with (_ | _) | _ | _ <;> first | rfl | exact absurd hend (by simp [Place.isEnd])
      obtain ⟨d, rfl, -⟩ := Stance.exists_derivation hs hnum Kind.endsGroup_semicolon
      exact ⟨d, Or.inl rfl⟩
    · obtain ⟨d, rfl, -⟩ :=
        Stance.exists_derivation hv (readable_append.mp hnum).1 Kind.endsGroup_semicolon
      exact ⟨d, Or.inr rfl⟩

/-! ### Beginnings -/

/-- The tokens that lead from a stance to an operator that is due, with no parenthesis
open: an operand, if one is due, and the parentheses that close. -/
def Stance.closing : Stance → List Kind
  | operand _ groups => .name "x" :: List.replicate groups .rightParen
  | operator groups => List.replicate groups .rightParen

/-- The tokens that lead from a place to one at which a line is complete. -/
def Place.closing : Place → List Kind
  | start => [.name "x", .assign, .name "x", .semicolon]
  | named => [.assign, .name "x", .semicolon]
  | value _ s => s.closing ++ [.semicolon]
  | done => []

theorem Stance.read?_replicate (groups : Nat) :
    (operator groups).read? (List.replicate groups .rightParen) = some (operator 0) := by
  induction groups with
  | zero => rfl
  | succ groups ih => exact ih

theorem Stance.read?_closing (s : Stance) : s.read? s.closing = some (operator 0) := by
  cases s with
  | operand negatable groups =>
    have hname : (operand negatable groups).next? (.name "x") = some (operator groups) := by
      cases negatable <;> rfl
    rw [closing, read?_cons, hname, Option.bind_some]
    exact read?_replicate groups
  | operator groups => exact read?_replicate groups

theorem Place.read?_closing (p : Place) : p.read? p.closing = some done := by
  cases p with
  | value alone s => exact read?_value_iff.mpr (Or.inr ⟨_, rfl, s.read?_closing, rfl⟩)
  | _ => rfl

theorem Place.number_notMem_closing (p : Place) (s : String) : Kind.number s ∉ p.closing := by
  rcases p with _ | _ | ⟨alone, ⟨negatable, groups⟩ | groups⟩ | _ <;>
    simp [closing, Stance.closing, List.mem_replicate]

/-- The tokens `v` are the beginning of a word of `L`. -/
def Begins (L : List Kind → Prop) (v : List Kind) : Prop := ∃ word, L word ∧ v <+: word

namespace Recognizes

variable {p q : Place} {L : List Kind → Prop} {v : List Kind} {k : Kind}

/-- What is read is the beginning of a line. -/
theorem begins (h : Recognizes p L) (hpoint : OnePoint v) (hnum : Readable v)
    (hread : p.read? v = some q) : Begins L v := by
  have hclosed : p.read? (v ++ q.closing) = some .done := by
    rw [Place.read?_append, hread, Option.bind_some, q.read?_closing]
  refine ⟨v ++ q.closing, h.complete ?_ ?_ hclosed rfl, List.prefix_append _ _⟩
  · intro s hs
    exact hpoint s ((List.mem_append.mp hs).resolve_right (q.number_notMem_closing s))
  · intro s hs
    exact hnum s ((List.mem_append.mp hs).resolve_right (q.number_notMem_closing s))

/-- What cannot come next begins no line. -/
theorem not_begins (h : Recognizes p L) (hread : p.read? v = some q) (hnext : q.next? k = none) :
    ¬ Begins L (v ++ [k]) := by
  rintro ⟨word, hword, after, rfl⟩
  obtain ⟨last, hlast, -⟩ := h.sound hword
  rw [List.append_assoc, Place.read?_append, hread, Option.bind_some] at hlast
  exact absurd hlast (by simp [hnext])

end Recognizes

end Linewise
