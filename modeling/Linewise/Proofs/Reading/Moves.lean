/-
The steps of a descent.

* `Descent.Moves`, `moves_step` — what one step can do;
* `cost_lt_of_moves` — each step costs something, of which there is no more than twenty-five
  for each token and a little for the start;
* `Descent.finish` — so every descent comes to an end;
* `Descent.Remembers` — what the active rules remember has been the case before.

Design notes: `Moves` says of each step what it does to the active rules, the tokens and the
counter, and leaves out what is read.  What holds throughout a descent is shown from its
cases, and the definition of a step is opened here only and where the trees matter.
-/
import Linewise.Proofs.Reading.Descent
import Linewise.Proofs.Reading.Statement
import Mathlib.Logic.Function.Iterate

namespace Linewise

/-! ### What one step can do -/

/-- The stream `s'` is what is left of `s` from some place on. -/
structure TokenStream.IsRest (s' s : TokenStream) : Prop where
  tokens : s'.tokens <:+ s.tokens
  ending : s'.ending = s.ending

theorem TokenStream.IsRest.refl (s : TokenStream) : s.IsRest s := ⟨List.suffix_rfl, rfl⟩

theorem TokenStream.IsRest.trans {s s' s'' : TokenStream} (h : s''.IsRest s') (h' : s'.IsRest s) :
    s''.IsRest s :=
  ⟨h.tokens.trans h'.tokens, h.ending.trans h'.ending⟩

theorem TokenStream.isRest_advance (s : TokenStream) : s.advance.IsRest s :=
  ⟨List.tail_suffix _, rfl⟩

namespace Parser

variable {p p' p'' : Parser} {t : Token}

/-- The parser `p'` is at the place of `p` or further on, and as deep. -/
structure Follows (p' p : Parser) : Prop where
  input : p'.input.IsRest p.input
  depth : p'.depth = p.depth

theorem Follows.refl (p : Parser) : p.Follows p := ⟨.refl _, rfl⟩

theorem Follows.trans (h : p''.Follows p') (h' : p'.Follows p) : p''.Follows p :=
  ⟨h.input.trans h'.input, h.depth.trans h'.depth⟩

theorem Follows.size_le (h : p'.Follows p) : p'.size ≤ p.size := h.input.tokens.length_le

theorem follows_skip (p : Parser) : p.skip.Follows p := ⟨p.input.isRest_advance, rfl⟩

theorem peek_eq_ok_iff : p.peek = .ok t ↔ p.input.current = .ok t := mapError_eq_ok_iff

theorem peek_of_ok {s : TokenStream} {depth : Int} (h : s.current = .ok t) :
    (⟨s, depth⟩ : Parser).peek = .ok t :=
  peek_eq_ok_iff.mpr h

theorem peek_of_error {s : TokenStream} {depth : Int} {error : LexError}
    (h : s.current = .error error) : (⟨s, depth⟩ : Parser).peek = .error (.lex error) := by
  rw [peek, h, mapError_error]

theorem size_skip_lt (h : p.peek = .ok t) (hkind : t.kind ≠ .endOfLine) :
    p.skip.size < p.size := by
  obtain ⟨rest, hrest⟩ := (Reader.current_eq_ok_iff hkind).mp (peek_eq_ok_iff.mp h)
  simp [size, skip, TokenStream.advance, hrest]

end Parser

namespace Mode

/-- What has come of a descent that is done. -/
def result? : Mode → Option (Except LineError Phrase)
  | done result => some result
  | _ => none

/-- A bound on the steps that a mode takes before a token is taken or a rule returns. -/
def cost : Mode → Nat
  | enter rule => 2 * (10 - rule.rank) + 1
  | due n _ => 2 * (10 - n.rank) + 3
  | leave _ _ => 1
  | done _ => 0

@[simp] theorem cost_enter (rule : Rule) : (enter rule).cost = 2 * (10 - rule.rank) + 1 := rfl

@[simp] theorem cost_due (n : Nonterminal) (column? : Option Nat) :
    (due n column?).cost = 2 * (10 - n.rank) + 3 := rfl

@[simp] theorem cost_leave (entry : Parser) (result : Except LineError Expr) :
    (leave entry result).cost = 1 := rfl

@[simp] theorem cost_done (result : Except LineError Phrase) : (done result).cost = 0 := rfl

theorem result?_eq_some_iff {mode : Mode} {result : Except LineError Phrase} :
    mode.result? = some result ↔ mode = .done result := by
  cases mode <;> simp [result?]

theorem cost_pos {mode : Mode} (h : mode.result? = none) : 1 ≤ mode.cost := by
  cases mode with
  | done result => exact absurd h (by simp [result?])
  | enter rule | due n column? => simp [cost]
  | leave entry result => exact Nat.le_refl 1

end Mode

namespace Descent

open Linewise.Parser

/-- What one step of a descent can do, as far as rules, tokens and the counter go. -/
inductive Moves (limit : Int) : Descent → Descent → Prop
  /-- A rule calls another one at the same token. -/
  | call {rule : Rule} {n : Nonterminal} {task : Task} {active : List Activation} {p : Parser}
      (hrule : task.rule? = some rule) (hinner : rule ≠ .statement) (hrank : rule.rank < n.rank)
      (htested : task.tested? = none) (hrestore : task.restore p.depth = p.depth) :
      Moves limit ⟨.enter rule, active, p⟩ ⟨.enter (.inner n), ⟨task, p⟩ :: active, p⟩
  /-- A rule opens a level and takes a token. -/
  | deepen {rule : Rule} {n : Nonterminal} {task : Task} {active : List Activation} {p : Parser}
      (hrule : task.rule? = some rule) (hinner : rule ≠ .statement)
      (htested : task.tested? = none) (hrestore : task.restore (p.depth + 1) = p.depth)
      (hdepth : p.depth < limit)
      (hsize : p.skip.size < p.size) :
      Moves limit ⟨.enter rule, active, p⟩
        ⟨.due n none, ⟨task, p⟩ :: active, p.skip.deeper⟩
  /-- A rule that takes at most one token returns. -/
  | answer {n : Nonterminal} {active : List Activation} {p p' : Parser}
      {result : Except LineError Expr} (hfollows : p'.Follows p)
      (hsize : ∀ e, result = .ok e → p'.size < p.size) :
      Moves limit ⟨.enter (.inner n), active, p⟩ ⟨.leave p result, active, p'⟩
  /-- A rule is called after a token was taken. -/
  | begin {n : Nonterminal} {active : List Activation} {p : Parser} :
      Moves limit ⟨.due n none, active, p⟩ ⟨.enter (.inner n), active, p⟩
  /-- The level of a right side is opened. -/
  | beginRight {n : Nonterminal} {column : Nat} {active : List Activation} {p : Parser}
      (hdepth : p.depth < limit) :
      Moves limit ⟨.due n (some column), active, p⟩
        ⟨.enter (.inner n), ⟨.rightSide, p⟩ :: active, p.deeper⟩
  /-- A result or an error goes back to an active rule, which returns too. -/
  | back {mode : Mode} {a : Activation} {active : List Activation} {p p' : Parser}
      {result : Except LineError Expr} (hmode : mode.result? = none)
      (hinner : a.task.rule? ≠ some .statement) (hfollows : p'.Follows p)
      (hresult : ∀ e, result = .ok e → ∃ entry e', mode = .leave entry (.ok e')) :
      Moves limit ⟨mode, a :: active, p⟩ (leave p' active a result)
  /-- The loop of a chain goes on with an operator. -/
  | fold {entry : Parser} {a : Activation} {active : List Activation} {p : Parser} {e left : Expr}
      {c : Chain} {op : BinaryOp} {column? : Option Nat}
      (hrule : a.task.rule? = some (.inner (.chain c))) (hdepth : p.depth < limit)
      (hsize : p.skip.size < p.size) :
      Moves limit ⟨.leave entry (.ok e), a :: active, p⟩
        ⟨.due c.rightOperand column?,
          ⟨.right c op left (a.task.restore p.depth) p.input, a.entry⟩ :: active,
          p.skip.deeper⟩
  /-- An expression is read, and nothing is active. -/
  | done {mode : Mode} {p : Parser} {result : Except LineError Expr} (hmode : mode.result? = none)
      (hresult : ∀ e, result = .ok e → ∃ entry, mode = .leave entry (.ok e)) :
      Moves limit ⟨mode, [], p⟩ ⟨.done (result.map .expression), [], p⟩
  /-- A statement takes the tokens before its expression. -/
  | beginStatement {make : Expr → Statement} {active : List Activation} {p p' : Parser}
      (hfollows : p'.Follows p) (hsize : p'.size < p.size) :
      Moves limit ⟨.enter .statement, active, p⟩
        ⟨.due .expression none, ⟨.statement make, p⟩ :: active, p'⟩
  /-- A statement fails before its expression. -/
  | failStatement {active : List Activation} {p p' : Parser} {error : LineError}
      (hfollows : p'.Follows p) :
      Moves limit ⟨.enter .statement, active, p⟩ ⟨.done (.error error), active, p'⟩
  /-- A statement ends after its expression. -/
  | endStatement {mode : Mode} {make : Expr → Statement} {entry : Parser}
      {active : List Activation} {p p' : Parser} {result : Except LineError Phrase}
      (hmode : mode.result? = none) (hfollows : p'.Follows p)
      (hresult : ∀ phrase, result = .ok phrase →
        (∃ e, phrase = .statement (make e)) ∧ p'.size < p.size ∧
          ∃ entry e, mode = .leave entry (.ok e)) :
      Moves limit ⟨mode, ⟨.statement make, entry⟩ :: active, p⟩ ⟨.done result, active, p'⟩

section Moves

variable {limit : Int} {p : Parser} {active : List Activation}

theorem moves_fail (n : Nonterminal) (error : LineError) :
    Moves limit ⟨.enter (.inner n), active, p⟩ (fail p active error) :=
  .answer (.refl p) (by simp)

theorem moves_deepen {t : Token} {task : Task} {n n' : Nonterminal} (hpeek : p.peek = .ok t)
    (hkind : t.kind ≠ .endOfLine) (hrule : task.rule? = some (.inner n))
    (htested : task.tested? = none) (hrestore : task.restore (p.depth + 1) = p.depth) :
    Moves limit ⟨.enter (.inner n), active, p⟩ (deepen limit p active t task n') := by
  rw [deepen]
  split
  · exact moves_fail n _
  · next hdepth =>
    exact .deepen hrule (by simp) htested hrestore (Int.not_le.mp hdepth) (size_skip_lt hpeek hkind)

theorem moves_take {t : Token} {n : Nonterminal} (hpeek : p.peek = .ok t)
    (hkind : t.kind ≠ .endOfLine) (e : Expr) :
    Moves limit ⟨.enter (.inner n), active, p⟩ (take p active e) :=
  .answer (follows_skip p) fun _ _ => size_skip_lt hpeek hkind

theorem moves_enterPrimary :
    Moves limit ⟨.enter (.inner .primary), active, p⟩ (enterPrimary limit p active) := by
  rw [enterPrimary]
  cases hpeek : p.peek with
  | error error => exact moves_fail _ error
  | ok t =>
    have hkind : ∀ {k : Kind}, t.kind = k → k ≠ .endOfLine → t.kind ≠ .endOfLine :=
      fun h hk => h ▸ hk
    dsimp only
    split
    · next spelling hnumber =>
      cases Number.read? spelling with
      | none => exact moves_fail _ _
      | some value => exact moves_take hpeek (hkind hnumber (by simp)) _
    · next h => exact moves_take hpeek (hkind h (by simp)) _
    · next h => exact moves_take hpeek (hkind h (by simp)) _
    · next h => exact moves_take hpeek (hkind h (by simp)) _
    · next h =>
      exact moves_deepen hpeek (hkind h (by simp)) rfl rfl (by simp [Task.restore])
    · exact moves_fail _ _

theorem moves_enterInner (n : Nonterminal) :
    Moves limit ⟨.enter (.inner n), active, p⟩ (enterInner limit p active n) := by
  cases n with
  | chain c =>
    refine .call rfl (by simp) ?_ rfl rfl
    rw [c.rank_operand]
    exact Nat.lt_succ_self _
  | logicalFactor =>
    rw [enterInner]
    cases hpeek : p.peek with
    | error error => exact moves_fail _ error
    | ok t =>
      dsimp only
      split
      · next hnot =>
        exact moves_deepen hpeek (by simp [hnot]) rfl rfl (by simp [Task.restore])
      · exact .call rfl (by simp) (by decide) rfl rfl
  | factor =>
    rw [enterInner]
    cases hpeek : p.peek with
    | error error => exact moves_fail _ error
    | ok t =>
      dsimp only
      cases hsign : t.kind.sign? with
      | none => exact .call rfl (by simp) (by decide) rfl rfl
      | some op =>
        have hkind : t.kind ≠ .endOfLine := by
          intro h
          simp [h, Kind.sign?] at hsign
        have hop : op ≠ .not := by
          rintro rfl
          cases hk : t.kind <;> simp [hk, Kind.sign?] at hsign
        refine moves_deepen hpeek hkind ?_ rfl (by simp [Task.restore])
        cases op with
        | not => exact absurd rfl hop
        | plus | minus => rfl
  | primary => exact moves_enterPrimary

theorem moves_enterStatement :
    Moves limit ⟨.enter .statement, active, p⟩ (enterStatement p active) := by
  rw [enterStatement]
  cases hpeek : p.peek with
  | error error => exact .failStatement (.refl p)
  | ok first =>
    dsimp only
    split
    · next name hname =>
      have hsize := size_skip_lt hpeek (by simp [hname])
      cases hsign : p.skip.peek with
      | error error => exact .failStatement (follows_skip p)
      | ok sign =>
        dsimp only
        split
        · next hassign =>
          have hfollows := (follows_skip p.skip).trans (follows_skip p)
          exact .beginStatement hfollows (Nat.lt_of_le_of_lt (follows_skip p.skip).size_le hsize)
        · exact .failStatement (follows_skip p)
    · next hprint =>
      exact .beginStatement (follows_skip p) (size_skip_lt hpeek (by simp [hprint]))
    · exact .failStatement (.refl p)

/-! A result goes back to a rule that was active. -/

variable {mode : Mode} {a : Activation} {entry : Parser} {e : Expr}

theorem moves_abandon (hmode : mode.result? = none) (error : LineError) :
    Moves limit ⟨mode, a :: active, p⟩ (abandon p active a error) := by
  obtain ⟨task, entry⟩ := a
  cases task with
  | statement make => exact .endStatement hmode (.refl p) (by simp)
  | before op => cases op <;> exact .back hmode (by simp [Task.rule?]) (.refl p) (by simp)
  | _ => exact .back hmode (by simp [Task.rule?]) (.refl p) (by simp)

/-- A rule that returns with what comes of an expression. -/
theorem moves_leave {p' : Parser} (hinner : a.task.rule? ≠ some .statement)
    (hfollows : p'.Follows p) (result : Except LineError Expr) :
    Moves limit ⟨.leave entry (.ok e), a :: active, p⟩ (leave p' active a result) :=
  .back rfl hinner hfollows fun _ _ => ⟨entry, e, rfl⟩

theorem moves_loop {c : Chain} (hrule : a.task.rule? = some (.inner (.chain c))) (left : Expr) :
    Moves limit ⟨.leave entry (.ok e), a :: active, p⟩
      (loop limit p active a c left (a.task.restore p.depth)) := by
  have hinner : a.task.rule? ≠ some .statement := by simp [hrule]
  rw [loop]
  cases hpeek : p.peek with
  | error error => exact moves_leave hinner (.refl p) _
  | ok t =>
    dsimp only
    cases hop : c.operator? t.kind with
    | none => exact moves_leave hinner (.refl p) _
    | some op =>
      dsimp only
      split
      · exact moves_leave hinner (.refl p) _
      · next hdepth =>
        have hkind : t.kind ≠ .endOfLine := by
          intro h
          have hbin := (Chain.operator?_eq_some_iff.mp hop).1
          simp [h, Kind.binary?] at hbin
        exact .fold hrule (Int.not_le.mp hdepth) (size_skip_lt hpeek hkind)

theorem moves_close (hinner : a.task.rule? ≠ some .statement) :
    Moves limit ⟨.leave entry (.ok e), a :: active, p⟩ (close p active a e) := by
  rw [close]
  cases hpeek : p.peek with
  | error error => exact moves_leave hinner (.refl p) _
  | ok t =>
    dsimp only
    split
    · exact moves_leave hinner (follows_skip p) _
    · exact moves_leave hinner (.refl p) _

theorem moves_terminate (make : Expr → Statement) {entry' : Parser} :
    Moves limit ⟨.leave entry (.ok e), ⟨.statement make, entry'⟩ :: active, p⟩
      (terminate p active (make e)) := by
  rw [terminate]
  cases hpeek : p.peek with
  | error error => exact .endStatement rfl (.refl p) (by simp)
  | ok t =>
    dsimp only
    split
    · next hsemicolon =>
      refine .endStatement rfl (follows_skip p) fun phrase hphrase => ?_
      refine ⟨⟨e, ?_⟩, size_skip_lt hpeek (by simp [hsemicolon]), entry, e, rfl⟩
      cases hnext : p.skip.peek with
      | error error => simp [hnext, Except.map] at hphrase
      | ok next => simpa [hnext, Except.map] using hphrase.symm
    · exact .endStatement rfl (.refl p) (by simp)

theorem moves_resume :
    Moves limit ⟨.leave entry (.ok e), a :: active, p⟩ (resume limit p active a e) := by
  obtain ⟨task, entry'⟩ := a
  cases task with
  | statement make => exact moves_terminate make
  | first c => exact moves_loop (a := ⟨.first c, entry'⟩) rfl e
  | right c op left base tested =>
    exact moves_loop (a := ⟨.right c op left base tested, entry'⟩) rfl _
  | before op => cases op <;> exact moves_leave (by simp [Task.rule?]) (.refl p) _
  | rightSide | unnegated | unsigned => exact moves_leave (by simp [Task.rule?]) (.refl p) _
  | group => exact moves_close (by simp [Task.rule?])

theorem moves_back_error (hmode : mode.result? = none) (error : LineError) :
    Moves limit ⟨mode, active, p⟩ (back limit p (.error error) active) := by
  cases active with
  | nil => exact .done hmode (by simp)
  | cons a active => exact moves_abandon hmode error

end Moves

/-- A descent that is not done moves with every step. -/
theorem moves_step (limit : Int) {m : Descent} (h : m.mode.result? = none) :
    Moves limit m (step limit m) := by
  obtain ⟨mode, active, p⟩ := m
  cases mode with
  | enter rule =>
    cases rule with
    | statement => exact moves_enterStatement
    | inner n => exact moves_enterInner n
  | due n column? =>
    simp only [step]
    cases p.peek with
    | error error => exact moves_back_error h error
    | ok t =>
      cases column? with
      | none => exact .begin
      | some column =>
        dsimp only
        split
        · exact moves_back_error h _
        · next hdepth => exact .beginRight (Int.not_le.mp hdepth)
  | leave entry result =>
    cases result with
    | error error => exact moves_back_error h error
    | ok e =>
      cases active with
      | nil => exact .done h fun _ he => ⟨entry, by rw [Except.ok.inj he]⟩
      | cons a active => exact moves_resume
  | done result => exact absurd h (by simp [Mode.result?])

/-- No step moves back in the tokens. -/
theorem isRest_of_moves {limit : Int} {m m' : Descent} (h : Moves limit m m') :
    m'.parser.input.IsRest m.parser.input := by
  cases h with
  | call | begin | beginRight | done => exact .refl _
  | deepen | fold => exact TokenStream.isRest_advance _
  | answer hfollows | back _ _ hfollows | beginStatement hfollows | failStatement hfollows
  | endStatement _ hfollows => exact hfollows.input

/-! ### The end of a descent -/

/-- A bound on the steps that are left: twenty-five for each token, and in between one for
every active rule that is still to return. -/
def cost (m : Descent) : Nat := 25 * m.parser.size + m.active.length + m.mode.cost

theorem cost_lt_of_moves {limit : Int} {m m' : Descent} (h : Moves limit m m') :
    m'.cost < m.cost := by
  cases h with
  | @call rule n task active p hrule hinner hrank htested hrestore =>
    have hn := n.rank_le_nine
    simp only [cost, Mode.cost_enter, List.length_cons, Rule.rank_inner]
    omega
  | @deepen rule n task active p hrule hinner htested hrestore hdepth hsize =>
    -- The token that is taken pays for the new rule and for all calls up to the next token.
    have hrule := rule.rank_le_nine
    simp only [cost, Mode.cost_enter, Mode.cost_due, List.length_cons, size_deeper]
    omega
  | @answer n active p p' result hfollows hsize =>
    have hn := n.rank_le_nine
    have hle := hfollows.size_le
    simp only [cost, Mode.cost_enter, Mode.cost_leave, Rule.rank_inner]
    omega
  | begin =>
    simp only [cost, Mode.cost_enter, Mode.cost_due, Rule.rank_inner]
    omega
  | beginRight hdepth =>
    simp only [cost, Mode.cost_enter, Mode.cost_due, List.length_cons, size_deeper,
      Rule.rank_inner]
    omega
  | back hmode hinner hfollows hresult =>
    have hpos := Mode.cost_pos hmode
    have hle := hfollows.size_le
    simp only [cost, leave, Mode.cost_leave, List.length_cons, size_setDepth]
    omega
  | fold hrule hdepth hsize =>
    simp only [cost, Mode.cost_leave, Mode.cost_due, List.length_cons, size_deeper]
    omega
  | done hmode hresult =>
    have hpos := Mode.cost_pos hmode
    simp only [cost, Mode.cost_done]
    omega
  | beginStatement hfollows hsize =>
    simp only [cost, Mode.cost_enter, Mode.cost_due, List.length_cons, Rule.rank_statement]
    omega
  | failStatement hfollows =>
    have hle := hfollows.size_le
    simp only [cost, Mode.cost_enter, Mode.cost_done]
    omega
  | endStatement hmode hfollows hresult =>
    have hpos := Mode.cost_pos hmode
    have hle := hfollows.size_le
    simp only [cost, Mode.cost_done, List.length_cons]
    omega

/-- The descent to its end: what has come of it, and the parser then. -/
def finish (limit : Int) (m : Descent) : Except LineError Phrase × Parser :=
  match _mode : m.mode.result? with
  | some result => (result, m.parser)
  | none => finish limit (step limit m)
termination_by m.cost
decreasing_by exact cost_lt_of_moves (moves_step limit _mode)

variable {limit : Int} {m : Descent}

theorem finish_of_done {result : Except LineError Phrase} (h : m.mode.result? = some result) :
    m.finish limit = (result, m.parser) := by
  rw [finish]
  split
  · next result' h' => rw [Option.some.inj (h'.symm.trans h)]
  · next h' => exact absurd (h.symm.trans h') (by simp)

theorem step_of_done {result : Except LineError Phrase}
    (h : m.mode.result? = some result) : step limit m = m := by
  rw [step, Mode.result?_eq_some_iff.mp h]

theorem finish_step (limit : Int) (m : Descent) : (step limit m).finish limit = m.finish limit := by
  cases h : m.mode.result? with
  | some result => rw [step_of_done h]
  | none =>
    rw [eq_comm, finish]
    split
    · next result h' => exact absurd (h.symm.trans h') (by simp)
    · rfl

theorem iterate_of_done {result : Except LineError Phrase}
    (h : m.mode.result? = some result) (k : Nat) : (step limit)^[k] m = m :=
  Function.iterate_fixed (step_of_done h) k

/-- A descent is done after as many steps as its cost, if not before. -/
theorem result?_iterate (limit : Int) {k : Nat} (h : m.cost ≤ k) :
    ((step limit)^[k] m).mode.result? = some (m.finish limit).1 ∧
      ((step limit)^[k] m).parser = (m.finish limit).2 := by
  induction k generalizing m with
  | zero =>
    cases hresult : m.mode.result? with
    | some result =>
      rw [finish_of_done hresult]
      exact ⟨hresult, rfl⟩
    | none =>
      have hpos := Mode.cost_pos hresult
      rw [cost] at h
      omega
  | succ k ih =>
    cases hresult : m.mode.result? with
    | some result =>
      rw [iterate_of_done hresult, finish_of_done hresult]
      exact ⟨hresult, rfl⟩
    | none =>
      have hlt := cost_lt_of_moves (moves_step limit hresult)
      rw [Function.iterate_succ_apply, ← finish_step limit m]
      exact ih (by omega)

/-- What no move changes holds after any number of steps. -/
theorem iterate_induction {P : Descent → Prop}
    (hmoves : ∀ {m m' : Descent}, Moves limit m m' → P m → P m') (h : P m) (k : Nat) :
    P ((step limit)^[k] m) := by
  induction k with
  | zero => exact h
  | succ k ih =>
    rw [Function.iterate_succ_apply']
    cases hresult : ((step limit)^[k] m).mode.result? with
    | some result =>
      rw [step_of_done hresult]
      exact ih
    | none => exact hmoves (moves_step limit hresult) ih

/-! ### What a descent remembers -/

/-- The rule is called, or the level of a right side is opened if there is none. -/
def Calls (m : Descent) : Option Rule → Prop
  | some rule => m.mode = .enter rule
  | none => ∃ n column, m.mode = .due n (some column)

/-- What has called for `entry` and has left `active` below it. -/
structure Entered (m : Descent) (rule? : Option Rule) (entry : Parser)
    (active : List Activation) : Prop where
  calls : m.Calls rule?
  parser : m.parser = entry
  active : m.active = active

/-- A chain that was entered at `entry` tests its loop at `tested`. -/
structure Tests (m : Descent) (tested : TokenStream) (entry : Parser)
    (active : List Activation) : Prop where
  input : m.parser.input = tested
  returned : ∃ entry' e, m.mode = .leave entry' (.ok e)
  active : ∃ task, m.active = ⟨task, entry⟩ :: active

/-- Every active rule was entered in the past, on top of those below it, and every chain in its
loop has tested it in the past. -/
inductive Recorded (past : Descent → Prop) : List Activation → Prop
  | nil : Recorded past []
  | cons {a : Activation} {active : List Activation} {m : Descent} (hpast : past m)
      (hentered : m.Entered a.task.rule? a.entry active)
      (htested : ∀ tested, a.task.tested? = some tested →
        ∃ m', past m' ∧ m'.Tests tested a.entry active)
      (h : Recorded past active) : Recorded past (a :: active)

/-- The active rules are recorded, and so is the one that returns. -/
structure Remembers (past : Descent → Prop) (m : Descent) : Prop where
  active : Recorded past m.active
  entry : ∀ entry result, m.mode = .leave entry result →
    ∃ m' rule?, past m' ∧ m'.Entered rule? entry m.active

theorem Recorded.mono {past past' : Descent → Prop} {active : List Activation}
    (h : Recorded past active) (hpast : ∀ m, past m → past' m) : Recorded past' active := by
  induction h with
  | nil => exact .nil
  | cons hm hentered htested h ih =>
    refine .cons (hpast _ hm) hentered (fun tested htask => ?_) ih
    obtain ⟨m', hm', htests⟩ := htested tested htask
    exact ⟨m', hpast m' hm', htests⟩

theorem Recorded.of_append {past : Descent → Prop} {above below : List Activation}
    {a : Activation} (h : Recorded past (above ++ a :: below)) :
    (∃ m, past m ∧ m.Entered a.task.rule? a.entry below) ∧
      ∀ tested, a.task.tested? = some tested → ∃ m, past m ∧ m.Tests tested a.entry below := by
  induction above with
  | nil =>
    cases h with
    | cons hm hentered htested h => exact ⟨⟨_, hm, hentered⟩, htested⟩
  | cons b above ih =>
    cases h with
    | cons hm hentered htested h => exact ih h

theorem remembers_of_moves {past past' : Descent → Prop} {m m' : Descent}
    (h : Moves limit m m') (hm : Remembers past m) (hpast : ∀ m, past m → past' m)
    (hnow : past' m) : Remembers past' m' := by
  have hrecorded := hm.active.mono hpast
  -- A rule that calls another one is recorded at its own entry.
  have hpush : ∀ {task : Task} {p : Parser} {active : List Activation},
      m.Entered task.rule? p active → Recorded past' active → task.tested? = none →
        Recorded past' (⟨task, p⟩ :: active) := fun hentered hactive htested =>
    .cons hnow hentered (fun tested h => absurd (htested.symm.trans h) (by simp)) hactive
  cases h with
  | call hrule hinner hrank htested hrestore =>
    exact ⟨hpush ⟨hrule ▸ rfl, rfl, rfl⟩ hrecorded htested, by simp⟩
  | deepen hrule hinner htested hrestore hdepth hsize =>
    exact ⟨hpush ⟨hrule ▸ rfl, rfl, rfl⟩ hrecorded htested, by simp⟩
  | @answer n active p p' result hfollows hsize =>
    refine ⟨hrecorded, fun entry result' h => ?_⟩
    obtain ⟨rfl, -⟩ : p = entry ∧ result = result' := by simpa using h
    exact ⟨_, some (.inner n), hnow, rfl, rfl, rfl⟩
  | begin => exact ⟨hrecorded, by simp⟩
  | @beginRight n column active p hdepth =>
    exact ⟨hpush ⟨⟨n, column, rfl⟩, rfl, rfl⟩ hrecorded rfl, by simp⟩
  | @back mode a active p p' result hmode hinner hfollows hresult =>
    cases hrecorded with
    | cons hm' hentered htested hactive =>
      refine ⟨hactive, fun entry result' h => ?_⟩
      obtain ⟨rfl, -⟩ : a.entry = entry ∧ result = result' := by simpa [leave] using h
      exact ⟨_, a.task.rule?, hm', hentered⟩
  | @fold entry a active p e left c op column? hrule hdepth hsize =>
    cases hrecorded with
    | cons hm' hentered htested hactive =>
      rw [hrule] at hentered
      refine ⟨.cons hm' hentered (fun tested h => ?_) hactive, by simp⟩
      -- This very step is the test.
      obtain rfl := Option.some.inj h
      exact ⟨_, hnow, rfl, ⟨entry, e, rfl⟩, a.task, rfl⟩
  | done hmode hresult => exact ⟨.nil, by simp⟩
  | beginStatement hfollows hsize =>
    exact ⟨hpush ⟨rfl, rfl, rfl⟩ hrecorded rfl, by simp⟩
  | failStatement hfollows => exact ⟨hrecorded, by simp⟩
  | endStatement hmode hfollows hresult =>
    cases hrecorded with
    | cons hm' hentered htested hactive => exact ⟨hactive, by simp⟩

/-- What a descent remembers after `k` steps has been the case before. -/
theorem remembers_iterate (limit : Int) (goal : Goal) (p : Parser) (k : Nat) :
    Remembers (fun m => ∃ j < k, m = (step limit)^[j] (start goal p))
      ((step limit)^[k] (start goal p)) := by
  induction k with
  | zero => exact ⟨.nil, by simp [start]⟩
  | succ k ih =>
    rw [Function.iterate_succ_apply']
    have hpast : ∀ m, (∃ j < k, m = (step limit)^[j] (start goal p)) →
        ∃ j < k + 1, m = (step limit)^[j] (start goal p) := by
      rintro m ⟨j, hj, rfl⟩
      exact ⟨j, Nat.lt_succ_of_lt hj, rfl⟩
    cases hresult : ((step limit)^[k] (start goal p)).mode.result? with
    | none =>
      have hmoves := moves_step limit hresult
      exact remembers_of_moves hmoves ih hpast ⟨k, Nat.lt_succ_self k, rfl⟩
    | some result =>
      rw [step_of_done hresult]
      refine ⟨ih.active.mono hpast, fun entry result' h => ?_⟩
      exact absurd hresult (by simp [h, Mode.result?])

/-- What is left of the tokens later on is a rest of what is left now. -/
theorem isRest_iterate (limit : Int) (m : Descent) {j k : Nat} (hjk : j ≤ k) :
    ((step limit)^[k] m).parser.input.IsRest ((step limit)^[j] m).parser.input := by
  obtain ⟨i, rfl⟩ := Nat.exists_eq_add_of_le' hjk
  rw [Function.iterate_add_apply]
  exact iterate_induction (P := fun m' => m'.parser.input.IsRest _)
    (fun hmoves h => (isRest_of_moves hmoves).trans h) (.refl _) i

end Descent

end Linewise
