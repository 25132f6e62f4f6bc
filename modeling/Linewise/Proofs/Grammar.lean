/-
The grammar of statements and expressions, loosest binding first:

    statement      := name "=" expression ";"  |  "print" expression ";"
    expression     := logicalTerm ( "or" logicalTerm )*
    logicalTerm    := logicalFactor ( "and" logicalFactor )*
    logicalFactor  := "!" comparison  |  comparison
    comparison     := relation ( ( "==" | "!=" ) expression )*
    relation       := arithmetic ( ( "<" | ">" ) arithmetic )*
    arithmetic     := term ( ( "+" | "-" ) term )*
    term           := factor ( ( "*" | "/" ) factor )*
    factor         := ( "+" | "-" ) factor  |  primary
    primary        := number | "true" | "false" | text | "(" expression ")" | name

* `Derivation` — the derivations from these rules, with the tokens that they
  derive (`Derivation.word`) and the tree that they stand for
  (`Derivation.tree`), in which every repetition is folded to the left and
  parentheses leave no node;
* `Derivation.Extends` — the right side of every equality reaches to the end of
  its group, which makes the tree unique;
* `Derivation.charge` — how many levels of nesting are open at most while the
  derived tokens are read;
* `StatementDerivation` — the same for statements.

Design notes: the six rules with a repetition differ in their operands and
operators only, so they are one rule with a `Chain` as its parameter.  A
repetition is built from its last operator: what stands left of that operator
is a shorter repetition, as in the tree that is folded to the left.
-/
import Linewise.Reader.Configuration

namespace Linewise

/-- The six rules of the grammar that repeat an operator, loosest first. -/
inductive Chain
  | disjunction
  | conjunction
  | equality
  | order
  | sum
  | product
deriving DecidableEq, Repr

/-- What a rule of the grammar derives. -/
inductive Nonterminal
  | chain (c : Chain)
  | logicalFactor
  | factor
  | primary
deriving DecidableEq, Repr

namespace Nonterminal

abbrev expression : Nonterminal := chain .disjunction
abbrev logicalTerm : Nonterminal := chain .conjunction
abbrev comparison : Nonterminal := chain .equality
abbrev relation : Nonterminal := chain .order
abbrev arithmetic : Nonterminal := chain .sum
abbrev term : Nonterminal := chain .product

/-- The place of a nonterminal in the order of the rules, loosest first. -/
def rank : Nonterminal → Nat
  | chain .disjunction => 1
  | chain .conjunction => 2
  | logicalFactor => 3
  | chain .equality => 4
  | chain .order => 5
  | chain .sum => 6
  | chain .product => 7
  | factor => 8
  | primary => 9

end Nonterminal

namespace Chain

/-- The operand that a chain starts with. -/
def operand : Chain → Nonterminal
  | disjunction => .logicalTerm
  | conjunction => .logicalFactor
  | equality => .relation
  | order => .arithmetic
  | sum => .term
  | product => .factor

/-- The operand after each operator of a chain: a whole expression after an
equality, and what the chain starts with otherwise. -/
def rightOperand : Chain → Nonterminal
  | equality => .expression
  | c => c.operand

/-- The operators of a chain, by their tokens. -/
def operator? : Chain → Kind → Option BinaryOp
  | disjunction, .or _ => some (.logic .or)
  | conjunction, .and _ => some (.logic .and)
  | equality, .equal => some (.compare .eq)
  | equality, .notEqual => some (.compare .ne)
  | order, .less => some (.compare .lt)
  | order, .greater => some (.compare .gt)
  | sum, .plus => some (.arith .add)
  | sum, .minus => some (.arith .sub)
  | product, .star => some (.arith .mul)
  | product, .slash => some (.arith .div)
  | _, _ => none

/-- The place of a chain in the order of the rules. -/
def rank (c : Chain) : Nat := (Nonterminal.chain c).rank

/-- The levels of nesting that are open in the right operand of a chain's operator,
which has `count` operators before it: one for each of them and for itself, and
one more for the right side of an equality. -/
def opening (c : Chain) (count : Nat) : Nat :=
  if c = .equality then count + 2 else count + 1

end Chain

/-- The chain that an operator belongs to. -/
def BinaryOp.chain : BinaryOp → Chain
  | logic .or => .disjunction
  | logic .and => .conjunction
  | compare .eq | compare .ne => .equality
  | compare .lt | compare .gt => .order
  | arith .add | arith .sub => .sum
  | arith .mul | arith .div => .product

/-- The sign that a token is before a factor. -/
def Kind.sign? : Kind → Option UnaryOp
  | plus => some .plus
  | minus => some .minus
  | _ => none

/-- Not the token of a binary operator, so that no chain goes on with it. -/
def Kind.EndsGroup (k : Kind) : Prop := ∀ c : Chain, c.operator? k = none

/-- The number of a number token; the undefined one if its text is no numeral. -/
def Number.ofSpelling (spelling : String) : Float := (Number.read? spelling).getD (0 / 0)

/-! ### Operators and their chains -/

theorem Chain.operator?_eq_some_iff {c : Chain} {k : Kind} {op : BinaryOp} :
    c.operator? k = some op ↔ k.binary? = some op ∧ op.chain = c := by
  cases c <;> cases k <;>
    simp only [Chain.operator?, Kind.binary?, Option.some.injEq, reduceCtorEq, false_and,
      false_iff, not_and]
  all_goals first
    | (intro h; subst h; simp [BinaryOp.chain])
    | (constructor
       · rintro rfl
         exact ⟨rfl, rfl⟩
       · exact And.left)

theorem Kind.endsGroup_iff {k : Kind} : k.EndsGroup ↔ k.binary? = none := by
  constructor
  · intro h
    cases hk : k.binary? with
    | none => rfl
    | some op =>
      have hop := Chain.operator?_eq_some_iff.mpr ⟨hk, rfl⟩
      rw [h op.chain] at hop
      exact absurd hop (by simp)
  · intro h c
    cases hc : c.operator? k with
    | none => rfl
    | some op => exact absurd (Chain.operator?_eq_some_iff.mp hc).1 (by simp [h])

theorem Kind.endsGroup_semicolon : Kind.semicolon.EndsGroup := Kind.endsGroup_iff.mpr rfl

theorem Kind.endsGroup_endOfLine : Kind.endOfLine.EndsGroup := Kind.endsGroup_iff.mpr rfl

theorem Nonterminal.one_le_rank (n : Nonterminal) : 1 ≤ n.rank := by
  rcases n with (_ | _ | _ | _ | _ | _) | _ | _ | _ <;> exact Nat.le_of_ble_eq_true rfl

theorem Nonterminal.rank_le_nine (n : Nonterminal) : n.rank ≤ 9 := by
  rcases n with (_ | _ | _ | _ | _ | _) | _ | _ | _ <;> exact Nat.le_of_ble_eq_true rfl

theorem Chain.rank_operand (c : Chain) : c.operand.rank = c.rank + 1 := by
  cases c <;> rfl

theorem Chain.rank_pos (c : Chain) : 1 ≤ c.rank := Nonterminal.one_le_rank (.chain c)

theorem Chain.rank_lt_eight (c : Chain) : c.rank < 8 := by
  cases c <;> exact Nat.le_of_ble_eq_true rfl

theorem Chain.rank_injective {c c' : Chain} (h : c.rank = c'.rank) : c = c' := by
  cases c <;> cases c' <;> first | rfl | exact absurd h (by decide)

theorem Chain.rightOperand_eq {c : Chain} (h : c ≠ .equality) : c.rightOperand = c.operand := by
  cases c <;> first | rfl | exact absurd rfl h

theorem BinaryOp.isEquality_iff {op : BinaryOp} :
    op.isEquality = true ↔ op.chain = .equality := by
  rcases op with (_ | _ | _ | _) | (_ | _ | _ | _) | (_ | _) <;>
    simp [BinaryOp.isEquality, BinaryOp.chain]

theorem BinaryOp.isLogic_iff {op : BinaryOp} : op.isLogic = true ↔ op.chain.rank < 3 := by
  rcases op with (_ | _ | _ | _) | (_ | _ | _ | _) | (_ | _) <;>
    simp [BinaryOp.isLogic, BinaryOp.chain, Chain.rank, Nonterminal.rank]

/-- The levels of operators leave out the place of `!`, which is no chain. -/
theorem BinaryOp.rank_chain (op : BinaryOp) :
    op.chain.rank = if op.level < 3 then op.level else op.level + 1 := by
  rcases op with (_ | _ | _ | _) | (_ | _ | _ | _) | (_ | _) <;> rfl

theorem BinaryOp.level_lt_level_iff {a b : BinaryOp} :
    a.level < b.level ↔ a.chain.rank < b.chain.rank := by
  rw [BinaryOp.rank_chain, BinaryOp.rank_chain]
  split <;> split <;> omega

theorem BinaryOp.level_eq_level_iff {a b : BinaryOp} : a.level = b.level ↔ a.chain = b.chain := by
  constructor
  · intro h
    refine Chain.rank_injective ?_
    rw [a.rank_chain, b.rank_chain, h]
  · intro h
    have hab := a.level_lt_level_iff (b := b)
    have hba := b.level_lt_level_iff (b := a)
    rw [h] at hab hba
    omega

/-! ### Numbers -/

/-- Every number of a list of tokens is a numeral. -/
def Readable (word : List Kind) : Prop :=
  ∀ s, Kind.number s ∈ word → (Number.read? s).isSome = true

theorem readable_append {v w : List Kind} : Readable (v ++ w) ↔ Readable v ∧ Readable w := by
  constructor
  · intro h
    exact ⟨fun s hs => h s (List.mem_append_left w hs),
      fun s hs => h s (List.mem_append_right v hs)⟩
  · rintro ⟨hv, hw⟩ s hs
    rcases List.mem_append.mp hs with hs | hs
    · exact hv s hs
    · exact hw s hs

theorem readable_number {s : String} : Readable [.number s] ↔ (Number.read? s).isSome = true := by
  simp [Readable]

theorem readable_singleton {k : Kind} (h : ∀ s, k ≠ .number s) : Readable [k] := by
  intro s hs
  exact absurd (List.mem_singleton.mp hs).symm (h s)

theorem readable_cons {k : Kind} {w : List Kind} (h : ∀ s, k ≠ .number s) :
    Readable (k :: w) ↔ Readable w := by
  rw [← List.singleton_append, readable_append]
  exact ⟨And.right, fun hw => ⟨readable_singleton h, hw⟩⟩

theorem Chain.operator_ne_number {c : Chain} {k : Kind} {op : BinaryOp}
    (h : c.operator? k = some op) (s : String) : k ≠ .number s := by
  rintro rfl
  exact absurd (Chain.operator?_eq_some_iff.mp h).1 (by simp [Kind.binary?])

theorem Kind.sign_ne_number {k : Kind} {op : UnaryOp} (h : k.sign? = some op) (s : String) :
    k ≠ .number s := by
  rintro rfl
  exact absurd h (by simp [Kind.sign?])

/-! ### Derivations -/

/-- The derivations of the grammar from a nonterminal. -/
inductive Derivation : Nonterminal → Type
  /-- A chain without an operator. -/
  | operand {c : Chain} (d : Derivation c.operand) : Derivation (.chain c)
  /-- A chain with one more operator. -/
  | fold {c : Chain} (left : Derivation (.chain c)) (sign : Kind) (op : BinaryOp)
      (spelled : c.operator? sign = some op) (right : Derivation c.rightOperand) :
      Derivation (.chain c)
  | negation (d : Derivation .comparison) : Derivation .logicalFactor
  | unnegated (d : Derivation .comparison) : Derivation .logicalFactor
  | signed (sign : Kind) (op : UnaryOp) (spelled : sign.sign? = some op)
      (d : Derivation .factor) : Derivation .factor
  | unsigned (d : Derivation .primary) : Derivation .factor
  | number (spelling : String) : Derivation .primary
  | boolean (value : Bool) : Derivation .primary
  | text (contents : String) : Derivation .primary
  | group (d : Derivation .expression) : Derivation .primary
  | name (name : String) : Derivation .primary

namespace Derivation

/-- The tokens that a derivation derives. -/
def word {n : Nonterminal} : Derivation n → List Kind
  | operand d => d.word
  | fold left sign _ _ right => left.word ++ sign :: right.word
  | negation d => .not :: d.word
  | unnegated d => d.word
  | signed sign _ _ d => sign :: d.word
  | unsigned d => d.word
  | number s => [.number s]
  | boolean b => [.boolean b]
  | text s => [.text s]
  | group d => .leftParen :: (d.word ++ [.rightParen])
  | name s => [.name s]

/-- The tree of a derivation. -/
def tree {n : Nonterminal} : Derivation n → Expr
  | operand d => d.tree
  | fold left _ op _ right => .binary op left.tree right.tree
  | negation d => .unary .not d.tree
  | unnegated d => d.tree
  | signed _ op _ d => .unary op d.tree
  | unsigned d => d.tree
  | number s => .number s (Number.ofSpelling s)
  | boolean b => .boolean b
  | text s => .text s
  | group d => d.tree
  | name s => .var s

/-- Where `next` follows the derived tokens: no binary operator follows the right
side of an equality, so that the right side extends to the end of its group. -/
def Extends {n : Nonterminal} : Derivation n → Kind → Prop
  | operand d, next => d.Extends next
  | @fold c left sign _ _ right, next =>
    left.Extends sign ∧ right.Extends next ∧ (c = .equality → next.EndsGroup)
  | negation d, next => d.Extends next
  | unnegated d, next => d.Extends next
  | signed _ _ _ d, next => d.Extends next
  | unsigned d, next => d.Extends next
  | group d, _ => d.Extends .rightParen
  | number _, _ | boolean _, _ | text _, _ | name _, _ => True

/-- The number of operators of a chain. -/
def count {n : Nonterminal} : Derivation n → Nat
  | fold left _ _ _ _ => left.count + 1
  | _ => 0

/-- The greatest number of levels that are open at once while the tokens of a
derivation are read. -/
def charge {n : Nonterminal} : Derivation n → Nat
  | operand d => d.charge
  | @fold c left _ _ _ right => max left.charge (c.opening left.count + right.charge)
  | negation d => d.charge + 1
  | unnegated d => d.charge
  | signed _ _ _ d => d.charge + 1
  | unsigned d => d.charge
  | group d => d.charge + 1
  | number _ | boolean _ | text _ | name _ => 0

/-- What follows an expression matters to its equalities only if it is an operator. -/
theorem Extends.of_endsGroup {n : Nonterminal} {d : Derivation n} {next next' : Kind}
    (h : d.Extends next) (hnext' : next'.EndsGroup) : d.Extends next' := by
  induction d with
  | operand d ih => exact ih h
  | fold left sign op spelled right _ ih =>
    obtain ⟨hleft, hright, -⟩ := h
    exact ⟨hleft, ih hright, fun _ => hnext'⟩
  | negation d ih => exact ih h
  | unnegated d ih => exact ih h
  | signed sign op spelled d ih => exact ih h
  | unsigned d ih => exact ih h
  | group d _ => exact h
  | number s => trivial
  | boolean b => trivial
  | text s => trivial
  | name s => trivial

theorem semicolon_notMem_word {n : Nonterminal} (d : Derivation n) :
    Kind.semicolon ∉ d.word := by
  induction d with
  | operand d ih => exact ih
  | fold left sign op spelled right ihleft ihright =>
    have hsign : Kind.semicolon ≠ sign := by
      rintro rfl
      exact absurd (Chain.operator?_eq_some_iff.mp spelled).1 (by simp [Kind.binary?])
    simp [word, ihleft, ihright, hsign]
  | negation d ih => simpa [word] using ih
  | unnegated d ih => exact ih
  | signed sign op spelled d ih =>
    have hsign : Kind.semicolon ≠ sign := by
      rintro rfl
      exact absurd spelled (by simp [Kind.sign?])
    simp [word, ih, hsign]
  | unsigned d ih => exact ih
  | group d ih => simpa [word] using ih
  | _ => simp [word]

end Derivation

/-- The derivations of the grammar from a statement. -/
inductive StatementDerivation
  | assign (name : String) (value : Derivation .expression)
  | print (value : Derivation .expression)

namespace StatementDerivation

/-- The derivation of the expression in a statement. -/
def value : StatementDerivation → Derivation .expression
  | assign _ d => d
  | print d => d

/-- The tokens before the expression of a statement. -/
def opening : StatementDerivation → List Kind
  | assign name _ => [.name name, .assign]
  | print _ => [.print]

/-- The tokens that a statement derives. -/
def word (d : StatementDerivation) : List Kind :=
  d.opening ++ d.value.word ++ [.semicolon]

/-- The statement that a derivation stands for. -/
def tree : StatementDerivation → Statement
  | assign name d => .assign name d.tree
  | print d => .print d.tree

end StatementDerivation

end Linewise
