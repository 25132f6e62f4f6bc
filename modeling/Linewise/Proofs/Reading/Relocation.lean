/-
Reading the same tokens at other columns.

* `Token.Moved`, `Configuration.Moved`, `TokenStream.Moved`, `Reader.Moved` — equal but for
  their columns, which a relation `R` relates;
* `Attempt.Moved` — two attempts come to the same, or are refused for the same reason at
  columns that `R` relates; attempts in turn keep this;
* `moved_run`, `moved_statement`, `moved_ending` — the readings do;
* `SameReading`, `ofLine_depends_on_kinds` — so what a line is read as depends on its tokens
  only, and a refusal points at the same one of them.

Design notes: an equality keeps the column of its sign until its right side is opened, so
errors do not point at the next token alone.  That is why configurations are related as well.
-/
import Linewise.Proofs.Results
import Linewise.Proofs.Token.Scan
import Linewise.Reader
import Mathlib.Data.List.Forall2

namespace Linewise

open Linewise.Frame Linewise.Configuration Linewise.TokenStream

/-! ### What differs in its columns only -/

variable {R : Nat → Nat → Prop}

/-- The same token at a column that `R` relates. -/
structure Token.Moved (R : Nat → Nat → Prop) (t t' : Token) : Prop where
  kind : t'.kind = t.kind
  column : R t.column t'.column

structure ParseError.Moved (R : Nat → Nat → Prop) (e e' : ParseError) : Prop where
  fault : e'.fault = e.fault
  column : R e.column e'.column

inductive LineError.Moved (R : Nat → Nat → Prop) : LineError → LineError → Prop
  | parse {e e' : ParseError} (h : e.Moved R e') : Moved R (.parse e) (.parse e')

inductive Expected.Moved (R : Nat → Nat → Prop) : Expected → Expected → Prop
  | operand (negatable : Bool) : Moved R (.operand negatable) (.operand negatable)
  | rightSide {column column' : Nat} (h : R column column') :
      Moved R (.rightSide column) (.rightSide column')
  | operator (left : Expr) : Moved R (.operator left) (.operator left)

structure Configuration.Moved (R : Nat → Nat → Prop) (c c' : Configuration) : Prop where
  expected : c.expected.Moved R c'.expected
  frames : c'.frames = c.frames
  depth : c'.depth = c.depth

/-- Both lines are at their ends. -/
inductive Ending.Moved (R : Nat → Nat → Prop) : Ending → Ending → Prop
  | endOfLine {column column' : Nat} (h : R column column') :
      Moved R (.endOfLine column) (.endOfLine column')

structure TokenStream.Moved (R : Nat → Nat → Prop) (s s' : TokenStream) : Prop where
  tokens : List.Forall₂ (Token.Moved R) s.tokens s'.tokens
  ending : s.ending.Moved R s'.ending

structure Reader.Moved (R : Nat → Nat → Prop) (r r' : Reader) : Prop where
  input : r.input.Moved R r'.input
  limit : r'.limit = r.limit
  depth : r'.depth = r.depth

/-! ### Expressions -/

namespace Configuration

variable {limit : Int} {c c' : Configuration} {t t' : Token}

theorem moved_deepen {column column' : Nat} {expected expected' : Expected} (frames : List Frame)
    (depth : Nat) (hcolumn : R column column') (hexpected : expected.Moved R expected') :
    Parallel (Configuration.Moved R) (ParseError.Moved R)
      (deepen limit column expected frames depth) (deepen limit column' expected' frames depth) := by
  rw [deepen, deepen]
  split
  · exact .error ⟨rfl, hcolumn⟩
  · exact .ok ⟨hexpected, rfl, rfl⟩

theorem moved_openRightSide (limit : Int) (h : c.Moved R c') :
    Parallel (Configuration.Moved R) (ParseError.Moved R) (c.openRightSide limit)
      (c'.openRightSide limit) := by
  obtain ⟨expected, frames, depth⟩ := c
  obtain ⟨expected', frames', depth'⟩ := c'
  obtain ⟨hexpected, rfl, rfl⟩ := h
  cases hexpected with
  | operand negatable => exact .ok ⟨.operand negatable, rfl, rfl⟩
  | rightSide h => exact moved_deepen _ _ h (.operand true)
  | operator left => exact .ok ⟨.operator left, rfl, rfl⟩

theorem moved_shiftOperand (negatable : Bool) (hframes : c'.frames = c.frames)
    (hdepth : c'.depth = c.depth) (ht : t.Moved R t') :
    Option.Rel (Parallel (Configuration.Moved R) (ParseError.Moved R))
      (c.shiftOperand limit negatable t) (c'.shiftOperand limit negatable t') := by
  obtain ⟨expected, frames, depth⟩ := c
  obtain ⟨expected', frames', depth'⟩ := c'
  obtain ⟨kind, column⟩ := t
  obtain ⟨kind', column'⟩ := t'
  obtain ⟨rfl, hcolumn⟩ := ht
  obtain rfl : frames' = frames := hframes
  obtain rfl : depth' = depth := hdepth
  have hoperand : ∀ e : Expr, Option.Rel (Parallel (Configuration.Moved R) (ParseError.Moved R))
      (some (.ok ⟨.operator e, frames', depth'⟩)) (some (.ok ⟨.operator e, frames', depth'⟩)) :=
    fun e => .some (.ok ⟨.operator e, rfl, rfl⟩)
  have henter : ∀ (f : Frame) (inner : Bool),
      Option.Rel (Parallel (Configuration.Moved R) (ParseError.Moved R))
        (some (deepen limit column (.operand inner) (f :: frames') depth'))
        (some (deepen limit column' (.operand inner) (f :: frames') depth')) :=
    fun f inner => .some (moved_deepen _ _ hcolumn (.operand inner))
  cases kind' with
  | number spelling =>
    simp only [shiftOperand]
    cases Number.read? spelling with
    | some value => exact hoperand _
    | none => exact .some (.error ⟨rfl, hcolumn⟩)
  | text contents => exact hoperand _
  | boolean value => exact hoperand _
  | name name => exact hoperand _
  | leftParen => exact henter .group true
  | plus => exact henter (.before .plus) false
  | minus => exact henter (.before .minus) false
  | not =>
    cases negatable with
    | true => exact henter (.before .not) false
    | false => exact .none
  | _ => exact .none

theorem moved_shift? (limit : Int) (h : c.Moved R c') (ht : t.Moved R t') :
    Option.Rel (Parallel (Configuration.Moved R) (ParseError.Moved R))
      (c.shift? limit t) (c'.shift? limit t') := by
  obtain ⟨expected, frames, depth⟩ := c
  obtain ⟨expected', frames', depth'⟩ := c'
  obtain ⟨hexpected, rfl, rfl⟩ := h
  cases hexpected with
  | operand negatable => exact moved_shiftOperand negatable rfl rfl ht
  | rightSide _ => exact moved_shiftOperand true rfl rfl ht
  | operator left =>
    obtain ⟨kind, column⟩ := t
    obtain ⟨kind', column'⟩ := t'
    obtain ⟨rfl, hcolumn⟩ := ht
    simp only [shift?]
    cases kind'.binary? with
    | some op =>
      refine .some (moved_deepen _ _ hcolumn ?_)
      cases op.isEquality with
      | true => exact .rightSide hcolumn
      | false => exact .operand _
    | none =>
      simp only
      split
      · simp only [shiftClosing]
        split
        · exact .none
        · exact .some (.ok ⟨.operator _, rfl, rfl⟩)
      · exact .none

theorem moved_finish (h : c.Moved R c') (ht : t.Moved R t') :
    Parallel Eq (ParseError.Moved R) (c.finish t) (c'.finish t') := by
  obtain ⟨expected, frames, depth⟩ := c
  obtain ⟨expected', frames', depth'⟩ := c'
  obtain ⟨hexpected, rfl, rfl⟩ := h
  obtain ⟨kind, column⟩ := t
  obtain ⟨kind', column'⟩ := t'
  obtain ⟨rfl, hcolumn⟩ := ht
  cases hexpected with
  | operand negatable => exact .error ⟨rfl, hcolumn⟩
  | rightSide _ => exact .error ⟨rfl, hcolumn⟩
  | operator left =>
    simp only [finish]
    split
    · exact .error ⟨rfl, hcolumn⟩
    · exact .ok rfl

theorem Moved.outerDepth_eq (h : c.Moved R c') : c'.outerDepth = c.outerDepth := by
  rw [outerDepth, outerDepth, h.frames, h.depth]

end Configuration

/-- Two readings of an expression that come to the same. -/
structure Reading.Moved (R : Nat → Nat → Prop) (a a' : Reading) : Prop where
  result : Parallel Eq (LineError.Moved R) a.result a'.result
  rest : List.Forall₂ (Token.Moved R) a.rest a'.rest
  depth : a'.depth = a.depth

theorem Configuration.moved_run (limit : Int) {ending ending' : Ending}
    (hending : ending.Moved R ending') {ts ts' : List Token}
    (hts : List.Forall₂ (Token.Moved R) ts ts') {c c' : Configuration} (h : c.Moved R c') :
    (c.run limit ending ts).Moved R (c'.run limit ending' ts') := by
  -- By induction on the tokens, which both runs take in step.
  induction hts generalizing c c' with
  | nil =>
    cases hending with
    | endOfLine hcolumn =>
      refine ⟨?_, .nil, h.outerDepth_eq⟩
      refine .mapError (.bind (moved_openRightSide limit h) fun opened opened' hopened => ?_)
        fun _ _ herror => .parse herror
      exact moved_finish hopened ⟨rfl, hcolumn⟩
  | @cons t t' ts ts' ht hts ih =>
    rw [run, run]
    have hopen := moved_openRightSide limit h
    generalize c.openRightSide limit = result, c'.openRightSide limit = result' at hopen ⊢
    cases hopen with
    | error herror => exact ⟨.error (.parse herror), .cons ht hts, h.outerDepth_eq⟩
    | @ok opened opened' hopened =>
      have hshift := moved_shift? limit hopened ht
      simp only
      generalize opened.shift? limit t = taken, opened'.shift? limit t' = taken' at hshift ⊢
      cases hshift with
      | none =>
        exact ⟨(moved_finish hopened ht).mapError fun _ _ herror => .parse herror, .cons ht hts,
          hopened.outerDepth_eq⟩
      | some hresult =>
        cases hresult with
        | ok hnext => exact ih hnext
        | error herror => exact ⟨.error (.parse herror), .cons ht hts, hopened.outerDepth_eq⟩

/-! ### Attempts -/

/-- Two attempts that come to values which `P` relates, or are refused for the same reason. -/
structure Attempt.Moved {α : Type} (R : Nat → Nat → Prop) (P : α → α → Prop)
    (a a' : Attempt α) : Prop where
  result : Parallel P (LineError.Moved R) a.result a'.result
  reader : a.reader.Moved R a'.reader

theorem Attempt.Moved.andThen {α β : Type} {P : α → α → Prop} {S : β → β → Prop}
    {a a' : Attempt α} {next next' : α → Reader → Attempt β} (h : a.Moved R P a')
    (hnext : ∀ value value' r r', P value value' → r.Moved R r' →
      (next value r).Moved R S (next' value' r')) :
    (a.andThen next).Moved R S (a'.andThen next') := by
  obtain ⟨result, reader⟩ := a
  obtain ⟨result', reader'⟩ := a'
  obtain ⟨hresult, hreader⟩ := h
  cases hresult with
  | ok h => exact hnext _ _ _ _ h hreader
  | error h => exact ⟨.error h, hreader⟩

namespace Reader

variable {α : Type} {r r' : Reader} (h : r.Moved R r')

include h

theorem moved_ok {P : α → α → Prop} {value value' : α} (hvalue : P value value') :
    Attempt.Moved R P ⟨.ok value, r⟩ ⟨.ok value', r'⟩ :=
  ⟨.ok hvalue, h⟩

theorem moved_refuse {t t' : Token} (ht : t.Moved R t') (fault : ParseFault)
    {P : α → α → Prop} : (r.refuse t fault : Attempt α).Moved R P (r'.refuse t' fault) :=
  ⟨.error (.parse ⟨rfl, ht.column⟩), h⟩

theorem moved_peek : r.peek.Moved R (Token.Moved R) r'.peek := by
  refine ⟨?_, h⟩
  obtain ⟨⟨tokens, ending⟩, limit, depth⟩ := r
  obtain ⟨⟨tokens', ending'⟩, limit', depth'⟩ := r'
  obtain ⟨⟨htokens, hending⟩, -, -⟩ := h
  cases htokens with
  | cons ht _ => exact .ok ht
  | nil =>
    cases hending with
    | endOfLine hcolumn => exact .ok ⟨rfl, hcolumn⟩

theorem moved_skip : r.skip.Moved R r'.skip := by
  obtain ⟨⟨tokens, ending⟩, limit, depth⟩ := r
  obtain ⟨⟨tokens', ending'⟩, limit', depth'⟩ := r'
  obtain ⟨⟨htokens, hending⟩, hlimit, hdepth⟩ := h
  cases htokens with
  | cons _ hrest => exact ⟨⟨hrest, hending⟩, hlimit, hdepth⟩
  | nil => exact ⟨⟨.nil, hending⟩, hlimit, hdepth⟩

theorem moved_expression : r.expression.Moved R Eq r'.expression := by
  have hstart : (start r.depth).Moved R (start r'.depth) := ⟨.operand true, rfl, h.depth⟩
  have hrun := moved_run r.limit h.input.ending h.input.tokens hstart
  rw [expression, expression, h.limit]
  exact ⟨hrun.result, ⟨hrun.rest, h.input.ending⟩, rfl, hrun.depth⟩

theorem moved_terminator : r.terminator.Moved R Eq r'.terminator := by
  refine (moved_peek h).andThen fun t t' r r' ht h => ?_
  rw [ht.kind]
  split
  · exact (moved_peek (moved_skip h)).andThen fun _ _ _ _ _ h => moved_ok h rfl
  · exact moved_refuse h ht _

/-- An expression with the semicolon that ends its statement. -/
theorem moved_terminated (f : Expr → Statement) :
    (r.expression.andThen fun value r => r.terminator.andThen fun _ r =>
      (⟨.ok (f value), r⟩ : Attempt Statement)).Moved R Eq
    (r'.expression.andThen fun value r => r.terminator.andThen fun _ r => ⟨.ok (f value), r⟩) :=
  (moved_expression h).andThen fun _ _ _ _ hvalue h =>
    (moved_terminator h).andThen fun _ _ _ _ _ h => moved_ok h (congrArg f hvalue)

theorem moved_statement : r.statement.Moved R Eq r'.statement := by
  refine (moved_peek h).andThen fun first first' r r' hfirst h => ?_
  rw [hfirst.kind]
  split
  · refine (moved_peek (moved_skip h)).andThen fun sign sign' r r' hsign h => ?_
    rw [hsign.kind]
    split
    · exact moved_terminated (moved_skip h) _
    · exact moved_refuse h hsign _
  · exact moved_terminated (moved_skip h) _
  · exact moved_refuse h hfirst _

theorem moved_endOfLine : r.endOfLine.Moved R Eq r'.endOfLine := by
  refine (moved_peek h).andThen fun t t' r r' ht h => ?_
  rw [ht.kind]
  split
  · exact moved_ok h rfl
  · exact moved_refuse h ht _

theorem moved_ending (terminated : Bool) :
    (r.ending terminated).Moved R Eq (r'.ending terminated) := by
  refine (moved_peek h).andThen fun t t' r r' ht h => ?_
  rw [ht.kind]
  split
  · exact moved_endOfLine (moved_skip h)
  · exact moved_endOfLine h

end Reader

/-- A phrase with the end of its line. -/
theorem Attempt.Moved.whole {α : Type} {a a' : Attempt α} (h : a.Moved R Eq a')
    (terminated : Bool) :
    (a.andThen fun value r => (r.ending terminated).andThen fun _ r =>
      (⟨.ok value, r⟩ : Attempt α)).Moved R Eq
    (a'.andThen fun value r => (r.ending terminated).andThen fun _ r => ⟨.ok value, r⟩) :=
  h.andThen fun _ _ _ _ hvalue h => (Reader.moved_ending h terminated).andThen
    fun _ _ _ _ _ h => Reader.moved_ok h hvalue

/-! ### Lines -/

/-- The columns of the tokens at the same place of the two lists. -/
def SamePlace (ts ts' : List Token) (column column' : Nat) : Prop :=
  ∃ (i : Nat) (t t' : Token), ts[i]? = some t ∧ ts'[i]? = some t' ∧ t.column = column ∧
    t'.column = column'

/-- Both readings come to the same value, or they are refused for the same fault, each at the
column of the token at the same place of its line. -/
def SameReading {α : Type} (ts ts' : List Token) (x x' : Except LineError α) : Prop :=
  (∃ value, x = .ok value ∧ x' = .ok value) ∨
  ∃ (fault : ParseFault) (i : Nat) (t t' : Token), ts[i]? = some t ∧ ts'[i]? = some t' ∧
    x = .error (.parse ⟨fault, t.column⟩) ∧ x' = .error (.parse ⟨fault, t'.column⟩)

theorem Attempt.Moved.sameReading {α : Type} {ts ts' : List Token} {a a' : Attempt α}
    (h : a.Moved (SamePlace ts ts') Eq a') : SameReading ts ts' a.result a'.result := by
  obtain ⟨result, reader⟩ := a
  obtain ⟨result', reader'⟩ := a'
  obtain ⟨hresult, -⟩ := h
  cases hresult with
  | @ok value value' h => exact Or.inl ⟨value, rfl, h ▸ rfl⟩
  | error h =>
    cases h with
    | @parse e e' h =>
      obtain ⟨fault, column⟩ := e
      obtain ⟨fault', column'⟩ := e'
      obtain ⟨rfl, i, t, t', ht, ht', rfl, rfl⟩ := h
      exact Or.inr ⟨_, i, t, t', ht, ht', rfl, rfl⟩

theorem moved_ofString {line line' : String} {tokens tokens' : List Token}
    (h : tokenize line = .ok tokens) (h' : tokenize line' = .ok tokens')
    (hkinds : tokens.map Token.kind = tokens'.map Token.kind) :
    (TokenStream.ofString line).Moved (SamePlace tokens tokens') (TokenStream.ofString line') := by
  obtain ⟨column, hending, htokens⟩ := tokenize_eq_ok_iff.mp h
  obtain ⟨column', hending', htokens'⟩ := tokenize_eq_ok_iff.mp h'
  generalize TokenStream.ofString line = s at hending htokens ⊢
  generalize TokenStream.ofString line' = s' at hending' htokens' ⊢
  rw [htokens, htokens', List.map_append, List.map_append] at hkinds
  have hkinds := List.append_cancel_right hkinds
  have hlength : s.tokens.length = s'.tokens.length := by
    simpa using congrArg List.length hkinds
  constructor
  · rw [List.forall₂_iff_get]
    refine ⟨hlength, fun i hi hi' => ⟨?_, i, _, _, ?_, ?_, rfl, rfl⟩⟩
    · have hget := congrArg (·[i]?) hkinds
      simpa [hi, hi'] using hget.symm
    · rw [htokens, List.getElem?_append_left hi]
      exact List.getElem?_eq_getElem hi
    · rw [htokens', List.getElem?_append_left hi']
      exact List.getElem?_eq_getElem hi'
  · rw [hending, hending']
    refine .endOfLine ⟨s.tokens.length, ⟨.endOfLine, column⟩, ⟨.endOfLine, column'⟩, ?_, ?_,
      rfl, rfl⟩
    · rw [htokens, List.getElem?_concat_length]
    · rw [htokens', hlength, List.getElem?_concat_length]

/-- What a line is read as depends on the kinds of its tokens only, not on where they stand:
two lines that agree in these are read as the same statement or expression, or both are
refused for the same fault at the same one of their tokens. -/
theorem ofLine_depends_on_kinds (limit : Int) {line line' : String} {tokens tokens' : List Token}
    (h : tokenize line = .ok tokens) (h' : tokenize line' = .ok tokens')
    (hkinds : tokens.map Token.kind = tokens'.map Token.kind) :
    SameReading tokens tokens' (Statement.ofLine limit line) (Statement.ofLine limit line') ∧
    SameReading tokens tokens' (Expr.ofLine limit line) (Expr.ofLine limit line') := by
  have hreader : (Reader.ofString limit line).Moved (SamePlace tokens tokens')
      (Reader.ofString limit line') := ⟨moved_ofString h h' hkinds, rfl, rfl⟩
  exact ⟨((Reader.moved_statement hreader).whole false).sameReading,
    ((Reader.moved_expression hreader).whole true).sameReading⟩

/-- The right side of the equality is refused where its level would be opened, so both
refusals point back at the sign. -/
theorem ofLine_depends_on_kinds_equality :
    let tokens : List Token := [⟨.name "a", 0⟩, ⟨.equal, 2⟩, ⟨.name "b", 5⟩, ⟨.endOfLine, 6⟩]
    let tokens' : List Token := [⟨.name "a", 0⟩, ⟨.equal, 1⟩, ⟨.name "b", 3⟩, ⟨.endOfLine, 4⟩]
    tokenize "a == b" = .ok tokens ∧ tokenize "a==b" = .ok tokens' ∧
      tokens.map Token.kind = tokens'.map Token.kind ∧
      SameReading tokens tokens' (Expr.ofLine 1 "a == b") (Expr.ofLine 1 "a==b") ∧
      Expr.ofLine 1 "a==b" = .error (.parse ⟨.nestingTooDeep 1, 1⟩) := by
  intro tokens tokens'
  have hstream : TokenStream.ofString "a==b" =
      ⟨[⟨.name "a", 0⟩, ⟨.equal, 1⟩, ⟨.name "b", 3⟩], .endOfLine 4⟩ := by decide +kernel
  have h : tokenize "a == b" = .ok tokens := by decide +kernel
  have h' : tokenize "a==b" = .ok tokens' := by
    rw [tokenize, hstream]
    rfl
  have hkinds : tokens.map Token.kind = tokens'.map Token.kind := rfl
  have herror : Expr.ofLine 1 "a==b" = .error (.parse ⟨.nestingTooDeep 1, 1⟩) := by
    rw [Expr.ofLine, Reader.ofString, hstream]
    rfl
  obtain ⟨-, hexpression⟩ := ofLine_depends_on_kinds 1 h h' hkinds
  exact ⟨h, h', hkinds, hexpression, herror⟩

end Linewise
