/-
The counter of a parser is balanced.

* `Balanced` — an active rule will set the counter back to what it was at its entry;
* `balances_of_moves` — every step keeps that, and the counter within the limit;
* `Request`, `Parser.serve`, `Reader.serve` — one parser, or one reader, for one request after
  the other;
* `Parser.serve_balanced` — whatever it was asked before, a parser answers as a new one does.

Design notes: the counter is never set to a fixed value, so what holds of it is said relative
to the counter at the start.  That it does not fall below this follows from the stack alone,
because no active rule was entered deeper than the one that it has called.
-/
import Linewise.Proofs.Reading.Agreement

namespace Linewise

namespace Descent

open Linewise.Parser

/-! ### What one step preserves -/

/-- With the counter at `depth`, the innermost active rule will set it back to what it was at
its entry, and so on down to `base`.  Only the outermost rule is that of statements. -/
inductive Balanced (base : Int) : List Activation → Int → Prop
  | nil : Balanced base [] base
  | cons {a : Activation} {active : List Activation} {depth : Int}
      (hrestore : a.task.restore depth = a.entry.depth) (hle : a.entry.depth ≤ depth)
      (hbottom : a.task.rule? = some .statement → active = [])
      (h : Balanced base active a.entry.depth) : Balanced base (a :: active) depth

theorem Balanced.base_le {base depth : Int} {active : List Activation}
    (h : Balanced base active depth) : base ≤ depth := by
  induction h with
  | nil => exact Int.le_refl base
  | cons hrestore hle hbottom h ih => exact Int.le_trans ih hle

/-- What the counter is in a mode of a descent that has started at `base`. -/
def BalancedIn (base : Int) (active : List Activation) (p : Parser) : Mode → Prop
  | .enter .statement => active = [] ∧ p.depth = base
  | .enter (.inner _) => Balanced base active p.depth
  | .due _ _ => Balanced base active p.depth
  | .leave entry _ => p.depth = entry.depth ∧ Balanced base active p.depth
  | .done _ => p.depth = base

/-- The counter of a descent that has started at `base` is balanced and within the limit. -/
structure Balances (limit base : Int) (m : Descent) : Prop where
  balanced : BalancedIn base m.active m.parser m.mode
  le : m.parser.depth ≤ max limit base

variable {limit base : Int} {m m' : Descent}

theorem balanced_of_running {active : List Activation} {p : Parser} {mode : Mode}
    (h : BalancedIn base active p mode) (hmode : mode.result? = none) :
    Balanced base active p.depth := by
  cases mode with
  | enter rule =>
    cases rule with
    | statement =>
      obtain ⟨rfl, hdepth⟩ := h
      exact hdepth ▸ .nil
    | inner n => exact h
  | due n column? => exact h
  | leave entry result => exact h.2
  | done result => exact absurd hmode (by simp [Mode.result?])

theorem Balances.base_le (h : Balances limit base m) : base ≤ m.parser.depth := by
  cases hmode : m.mode.result? with
  | none => exact (balanced_of_running h.balanced hmode).base_le
  | some result =>
    have hbalanced := h.balanced
    rw [Mode.result?_eq_some_iff.mp hmode] at hbalanced
    exact Int.le_of_eq hbalanced.symm

theorem balances_start (limit : Int) (goal : Goal) (p : Parser) :
    Balances limit p.depth (start goal p) := by
  refine ⟨?_, Int.le_max_right limit p.depth⟩
  cases goal with
  | statement => exact ⟨rfl, rfl⟩
  | expression => exact .nil

theorem balances_of_moves (h : Moves limit m m') (hm : Balances limit base m) :
    Balances limit base m' := by
  obtain ⟨hbalanced, hle⟩ := hm
  cases h with
  | @call rule n task active p hrule hinner hrank htested hrestore =>
    have hbottom : task.rule? = some .statement → active = [] := fun h =>
      absurd (Option.some.inj (hrule.symm.trans h)) hinner
    exact ⟨.cons hrestore (Int.le_refl _) hbottom (balanced_of_running hbalanced rfl), hle⟩
  | @deepen rule n task active p hrule hinner htested hrestore hdepth hsize =>
    have hbottom : task.rule? = some .statement → active = [] := fun h =>
      absurd (Option.some.inj (hrule.symm.trans h)) hinner
    have hdeeper : p.skip.deeper.depth = p.depth + 1 := rfl
    exact ⟨.cons hrestore (Int.le_of_lt (Int.lt_succ _)) hbottom
      (balanced_of_running hbalanced rfl), by rw [hdeeper]; omega⟩
  | answer hfollows hsize =>
    have hdepth := hfollows.depth
    exact ⟨⟨hdepth, hdepth ▸ hbalanced⟩, hdepth ▸ hle⟩
  | begin => exact ⟨hbalanced, hle⟩
  | @beginRight n column active p hdepth =>
    have hdeeper : p.deeper.depth = p.depth + 1 := rfl
    exact ⟨.cons (by simp [Task.restore]) (Int.le_of_lt (Int.lt_succ _)) (by simp [Task.rule?])
      hbalanced, by rw [hdeeper]; omega⟩
  | @back mode a active p p' result hmode hinner hfollows hresult =>
    cases balanced_of_running hbalanced hmode with
    | cons hrestore hentry hbottom hactive =>
      have hdepth : (leave p' active a result).parser.depth = a.entry.depth := by
        rw [← hrestore, ← hfollows.depth]
        rfl
      exact ⟨⟨hdepth, hdepth ▸ hactive⟩, hdepth ▸ Int.le_trans hentry hle⟩
  | @fold entry a active p e left c op column? hrule hdepth hsize =>
    have hdeeper : p.skip.deeper.depth = p.depth + 1 := rfl
    cases hbalanced.2 with
    | cons hrestore hentry hbottom hactive =>
      -- The loop keeps the base, so the new task restores what the old one would have.
      exact ⟨.cons hrestore (Int.le_trans hentry (Int.le_of_lt (Int.lt_succ _)))
        (by simp [Task.rule?]) hactive, by rw [hdeeper]; omega⟩
  | @done mode p result hmode hresult =>
    have hbase : p.depth = base := by
      cases balanced_of_running hbalanced hmode
      rfl
    exact ⟨hbase, hle⟩
  | @beginStatement make active p p' hfollows hsize =>
    obtain ⟨hnil, hbase⟩ := hbalanced
    have hdepth := hfollows.depth
    subst hnil
    exact ⟨.cons hdepth (Int.le_of_eq hdepth.symm) (fun _ => rfl) (hbase ▸ .nil), hdepth ▸ hle⟩
  | failStatement hfollows =>
    exact ⟨hfollows.depth.trans hbalanced.2, hfollows.depth ▸ hle⟩
  | @endStatement mode make entry active p p' result hmode hfollows hresult =>
    cases balanced_of_running hbalanced hmode with
    | cons hrestore hentry hbottom hactive =>
      obtain rfl := hbottom rfl
      have hbase : entry.depth = base := by
        cases hactive
        rfl
      exact ⟨hfollows.depth.trans (hrestore.trans hbase), hfollows.depth ▸ hle⟩

/-! ### Whole descents -/

theorem balances_iterate (limit : Int) (goal : Goal) (p : Parser) (k : Nat) :
    Balances limit p.depth ((step limit)^[k] (start goal p)) :=
  iterate_induction balances_of_moves (balances_start limit goal p) k

theorem Balances.depth_of_done {result : Except LineError Phrase} (h : Balances limit base m)
    (hmode : m.mode.result? = some result) : m.parser.depth = base := by
  have hbalanced := h.balanced
  rwa [Mode.result?_eq_some_iff.mp hmode] at hbalanced

/-- When a descent ends, the counter is what it was at its start. -/
theorem depth_finish (limit : Int) (goal : Goal) (p : Parser) :
    ((start goal p).finish limit).2.depth = p.depth := by
  obtain ⟨hdone, hparser⟩ := result?_iterate limit (Nat.le_refl (start goal p).cost)
  rw [← hparser]
  exact (balances_iterate limit goal p _).depth_of_done hdone

end Descent

/-! ### One parser for many requests -/

/-- What can be asked of a parser and of the tokens that it reads. -/
inductive Request
  | phrase (goal : Goal)
  | ending (terminated : Bool)
  | advance
deriving DecidableEq, Repr

/-- What a request is answered with. -/
inductive Answer
  | phrase (result : Except LineError Phrase)
  | ending (result : Except LineError Unit)
  | token (result : Except LexError Token)

/-- The answer of a parser, and the parser after it.  The end of a line is asked of the tokens
alone. -/
def Parser.serve (limit : Int) (p : Parser) : Request → Answer × Parser
  | .phrase goal =>
    let outcome := (Descent.start goal p).finish limit
    (.phrase outcome.1, outcome.2)
  | .ending terminated =>
    let a := (⟨p.input, limit, 0⟩ : Reader).ending terminated
    (.ending a.result, ⟨a.reader.input, p.depth⟩)
  | .advance => (.token p.skip.input.current, p.skip)

/-- The parser after some requests. -/
def Parser.after (limit : Int) (p : Parser) (requests : List Request) : Parser :=
  requests.foldl (fun p q => (p.serve limit q).2) p

namespace Reader

/-- The answer of a reader, and the reader after it. -/
def serve (r : Reader) : Request → Answer × Reader
  | .phrase .statement => (.phrase (r.statement.result.map .statement), r.statement.reader)
  | .phrase .expression => (.phrase (r.expression.result.map .expression), r.expression.reader)
  | .ending terminated => (.ending (r.ending terminated).result, (r.ending terminated).reader)
  | .advance => (.token r.skip.input.current, r.skip)

/-- The reader after some requests. -/
def after (r : Reader) (requests : List Request) : Reader :=
  requests.foldl (fun r q => (r.serve q).2) r

end Reader

/-! ### What a reader keeps -/

theorem Attempt.limit_andThen {α β : Type} {a : Attempt α} {next : α → Reader → Attempt β}
    {limit : Int} (h : a.reader.limit = limit)
    (hnext : ∀ value r, r.limit = limit → (next value r).reader.limit = limit) :
    (a.andThen next).reader.limit = limit := by
  rw [andThen]
  cases a.result with
  | ok value => exact hnext value a.reader h
  | error error => exact h

namespace Reader

variable {limit : Int}

theorem limit_terminator {r : Reader} (h : r.limit = limit) :
    r.terminator.reader.limit = limit := by
  refine Attempt.limit_andThen h fun t r hr => ?_
  split
  · exact Attempt.limit_andThen hr fun _ _ hr => hr
  · exact hr

theorem limit_statement (r : Reader) : r.statement.reader.limit = r.limit := by
  have hrest : ∀ (make : Expr → Statement) (r' : Reader), r'.limit = r.limit →
      (r'.expression.andThen fun value r => r.terminator.andThen fun _ r =>
        ⟨.ok (make value), r⟩).reader.limit = r.limit :=
    fun make r' hr' => Attempt.limit_andThen hr' fun _ _ hr =>
      Attempt.limit_andThen (limit_terminator hr) fun _ _ hr => hr
  refine Attempt.limit_andThen rfl fun first r' hr' => ?_
  cases first.kind with
  | name name =>
    refine Attempt.limit_andThen hr' fun sign r'' hr'' => ?_
    split
    · exact hrest (.assign name) r''.skip hr''
    · exact hr''
  | print => exact hrest .print r'.skip hr'
  | _ => exact hr'

theorem endOfLine_eq (s : TokenStream) (limit : Int) (depth : Nat) :
    (⟨s, limit, depth⟩ : Reader).endOfLine =
      ⟨(⟨s, limit, 0⟩ : Reader).endOfLine.result, ⟨s, limit, depth⟩⟩ := by
  simp only [endOfLine, peek, Attempt.andThen]
  cases s.current with
  | error error => rfl
  | ok t =>
    dsimp only [mapError_ok]
    split <;> rfl

/-- The end of a line is the same at every depth. -/
theorem ending_eq (terminated : Bool) (s : TokenStream) (limit : Int) (depth : Nat) :
    (⟨s, limit, depth⟩ : Reader).ending terminated =
      ⟨((⟨s, limit, 0⟩ : Reader).ending terminated).result,
        ⟨((⟨s, limit, 0⟩ : Reader).ending terminated).reader.input, limit, depth⟩⟩ := by
  simp only [ending, peek, Attempt.andThen]
  cases s.current with
  | error error => rfl
  | ok t =>
    dsimp only [mapError_ok]
    split
    · simp only [skip]
      rw [endOfLine_eq s.advance limit depth, endOfLine_eq s.advance limit 0]
    · rw [endOfLine_eq s limit depth, endOfLine_eq s limit 0]

/-- The parser at the place of a reader answers as the reader does. -/
theorem parser_serve (r : Reader) (q : Request) :
    r.parser.serve r.limit q = ((r.serve q).1, (r.serve q).2.parser) ∧
      (r.serve q).2.limit = r.limit := by
  obtain ⟨s, limit, depth⟩ := r
  cases q with
  | phrase goal =>
    have hfinish := finish_start ⟨s, limit, depth⟩ goal
    cases goal with
    | statement =>
      refine ⟨?_, limit_statement _⟩
      simp only [Parser.serve, hfinish]
      rfl
    | expression =>
      refine ⟨?_, rfl⟩
      simp only [Parser.serve, hfinish]
      rfl
  | ending terminated =>
    simp only [Parser.serve, serve]
    rw [ending_eq terminated s limit depth]
    exact ⟨rfl, rfl⟩
  | advance => exact ⟨rfl, rfl⟩

/-- After the same requests, a parser and a reader are at the same place. -/
theorem parser_after (r : Reader) (requests : List Request) :
    (r.after requests).parser = r.parser.after r.limit requests ∧
      (r.after requests).limit = r.limit := by
  induction requests generalizing r with
  | nil => exact ⟨rfl, rfl⟩
  | cons q requests ih =>
    obtain ⟨hserve, hlimit⟩ := parser_serve r q
    obtain ⟨hparser, hafter⟩ := ih (r.serve q).2
    have hnext : (r.parser.serve r.limit q).2 = (r.serve q).2.parser := congrArg Prod.snd hserve
    refine ⟨?_, hafter.trans hlimit⟩
    simp only [after, Parser.after, List.foldl_cons] at hparser ⊢
    rw [hnext, hparser, hlimit]

end Reader

namespace Parser

/-- No request changes the counter for the next one. -/
theorem depth_serve (limit : Int) (p : Parser) (q : Request) :
    (p.serve limit q).2.depth = p.depth := by
  cases q with
  | phrase goal => exact Descent.depth_finish limit goal p
  | ending terminated => rfl
  | advance => rfl

theorem depth_after (limit : Int) (p : Parser) (requests : List Request) :
    (p.after limit requests).depth = p.depth := by
  induction requests generalizing p with
  | nil => rfl
  | cons q requests ih => exact (ih _).trans (depth_serve limit p q)

/-- A new parser at the place `input`. -/
def ofInput (input : TokenStream) : Parser := ⟨input, 0⟩

/-- A parser that has answered any requests before, with whatever results: while it reads a
statement or an expression the counter stays between zero and the limit; whenever a rule returns,
the counter is what it was when this rule was called on top of the same active rules; and so every
request is answered as a new parser at the same place would answer it, which is also what the
reader answers after these requests. -/
theorem serve_balanced (limit : Int) (input : TokenStream) (earlier : List Request)
    (q : Request) :
    let p := (ofInput input).after limit earlier
    let r := (⟨input, limit, 0⟩ : Reader).after earlier
    (∀ goal k, let m := fun k => (Descent.step limit)^[k] (Descent.start goal p)
      0 ≤ (m k).parser.depth ∧ (m k).parser.depth ≤ max limit 0 ∧
        (∀ entry result, (m k).mode = .leave entry result → (m k).parser.depth = entry.depth ∧
          ∃ j < k, ∃ rule?, (m j).Entered rule? entry (m k).active) ∧
        ∀ result, (m k).mode = .done result → (m k).parser.depth = p.depth) ∧
    (p.serve limit q).2.depth = p.depth ∧
    p.serve limit q = (ofInput p.input).serve limit q ∧
    r.parser = p ∧ p.serve limit q = ((r.serve q).1, (r.serve q).2.parser) := by
  intro p r
  have hzero : p.depth = 0 := depth_after limit (ofInput input) earlier
  obtain ⟨hparser, hlimit⟩ := Reader.parser_after ⟨input, limit, 0⟩ earlier
  replace hparser : r.parser = p := hparser
  replace hlimit : r.limit = limit := hlimit
  refine ⟨fun goal k => ?_, depth_serve limit p q, ?_, hparser, ?_⟩
  · intro m
    have hm : Descent.Balances limit p.depth (m k) := Descent.balances_iterate limit goal p k
    have hbalanced := hm.balanced
    refine ⟨hzero ▸ hm.base_le, hzero ▸ hm.le, fun entry result hmode => ⟨?_, ?_⟩,
      fun result hmode => ?_⟩
    · rw [hmode] at hbalanced
      exact hbalanced.1
    · obtain ⟨-, rule?, ⟨j, hj, rfl⟩, hentered⟩ :=
        (Descent.remembers_iterate limit goal p k).entry entry result hmode
      exact ⟨j, hj, rule?, hentered⟩
    · rw [hmode] at hbalanced
      exact hbalanced
  · have hnew : ofInput p.input = p := by
      rw [ofInput, ← hzero]
    rw [hnew]
  · rw [← hparser, ← hlimit]
    exact (Reader.parser_serve r q).1

end Parser

end Linewise
