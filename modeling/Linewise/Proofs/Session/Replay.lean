/-
The variables of a session are the replay of its assignments.

* `Call` — a call on a session, and `Session.runCalls` the outcomes of calls in turn;
* `Outcome.assignment?` — the write that an outcome tells of;
* `runLine_cases` — what can become of a line, with the attempt behind it;
* `session_runLine` — a line makes the write that its outcome tells of, and no other;
* `runLines_append`, `runCalls_eq_runLines` — runs that follow each other are one run;
* `session_runLines`, `session_runCalls` — a run makes the writes that its outcomes tell of;
* `variables_replay_assignments` — what that means for the variables after any run.
-/
import Linewise.Session
import Linewise.Proofs.Results
import Linewise.Proofs.Store

namespace Linewise

/-- A call on a session. -/
inductive Call
  | runLine (line : String)
  | exec (source : String)

/-- The outcomes of a call, and the session after it. -/
def Call.run (s : Session) : Call → List Outcome × Session
  | runLine line => ([(s.runLine line).outcome], (s.runLine line).session)
  | exec source => ((s.exec source).outcomes, (s.exec source).session)

/-- The lines that a call runs. -/
def Call.lines : Call → List String
  | runLine line => [line]
  | exec source => Text.lines source

/-- The outcomes of calls in turn, and the session after them. -/
def Session.runCalls (s : Session) : List Call → List Outcome × Session
  | [] => ([], s)
  | call :: calls =>
    let others := (call.run s).2.runCalls calls
    ((call.run s).1 ++ others.1, others.2)

/-- The name and the value that an outcome reports as assigned. -/
def Outcome.assignment? : Outcome → Option (String × Value)
  | statement (.assign name _) (some value) _ => some (name, value)
  | _ => none

/-- The store after the writes of some outcomes, in turn. -/
def Store.replay (store : Store) (outcomes : List Outcome) : Store :=
  (outcomes.filterMap Outcome.assignment?).foldl (fun s w => s.set w.1 w.2) store

namespace Store

theorem replay_append (store : Store) (xs ys : List Outcome) :
    store.replay (xs ++ ys) = (store.replay xs).replay ys := by
  rw [replay, List.filterMap_append, List.foldl_append]
  rfl

theorem replay_singleton_of_none {o : Outcome} (store : Store) (h : o.assignment? = none) :
    store.replay [o] = store := by
  rw [replay, List.filterMap_cons_none h]
  rfl

end Store

/-- What running a statement writes is what an outcome with its effect tells of, and
an assignment has a value. -/
theorem Statement.store_run {s : Statement} {store : Store} {effect : Effect}
    (h : s.run store = .ok effect) :
    effect.store = store.replay [.statement s effect.value effect.printed] ∧
      ∀ name e, s = .assign name e → effect.value.isSome := by
  cases s with
  | assign name e =>
    obtain ⟨value, -, hmade⟩ := bind_eq_ok_iff.mp h
    obtain rfl := Except.ok.inj hmade
    exact ⟨rfl, fun _ _ _ => rfl⟩
  | print e =>
    obtain ⟨value, -, hmade⟩ := bind_eq_ok_iff.mp h
    obtain rfl := Except.ok.inj hmade
    exact ⟨rfl, fun _ _ hs => absurd hs (by simp)⟩

namespace Session

theorem ofLine_of_tryStatement {s : Session} {line : String} {statement : Statement}
    {effect : Effect} (h : s.tryStatement line = .ok (statement, effect)) :
    Statement.ofLine s.settings.limits.maxNestingDepth line = .ok statement := by
  obtain ⟨read, hread, h⟩ := bind_eq_ok_iff.mp h
  obtain ⟨made, -, h⟩ := bind_eq_ok_iff.mp h
  obtain ⟨rfl, rfl⟩ := Prod.mk.inj (Except.ok.inj h)
  exact hread

theorem run_of_tryStatement {s : Session} {line : String} {statement : Statement}
    {effect : Effect} (h : s.tryStatement line = .ok (statement, effect)) :
    statement.run s.store = .ok effect := by
  obtain ⟨read, -, h⟩ := bind_eq_ok_iff.mp h
  obtain ⟨made, hrun, h⟩ := bind_eq_ok_iff.mp h
  obtain ⟨rfl, rfl⟩ := Prod.mk.inj (Except.ok.inj h)
  exact mapError_eq_ok_iff.mp hrun

theorem eval_of_tryExpression {s : Session} {line : String} {e : Expr} {value : Value}
    (h : s.tryExpression line = .ok (e, value)) : e.eval s.store = .ok value := by
  obtain ⟨read, -, h⟩ := bind_eq_ok_iff.mp h
  obtain ⟨made, heval, h⟩ := bind_eq_ok_iff.mp h
  obtain ⟨rfl, rfl⟩ := Prod.mk.inj (Except.ok.inj h)
  exact mapError_eq_ok_iff.mp heval

/-- A line runs as a statement, or it leaves the session as it was: then it has the value
of an expression, or it has no tree. -/
theorem runLine_cases (s : Session) (line : String) :
    (∃ statement effect, s.tryStatement line = .ok (statement, effect) ∧
      (s.runLine line).outcome = .statement statement effect.value effect.printed ∧
      (s.runLine line).session = { s with store := effect.store }) ∨
    (∃ e value, s.tryExpression line = .ok (e, value) ∧
      (s.runLine line).outcome = .expression e value ∧ (s.runLine line).session = s) ∨
    (((s.runLine line).outcome = .blank ∨
      (∃ text echoed, (s.runLine line).outcome = .comment text echoed) ∨
      ∃ e, (s.runLine line).outcome = .error e) ∧ (s.runLine line).session = s) := by
  unfold runLine
  split
  · exact Or.inr (Or.inr ⟨Or.inl rfl, rfl⟩)
  · exact Or.inr (Or.inr ⟨Or.inr (Or.inl ⟨_, _, rfl⟩), rfl⟩)
  · simp only [runCode]
    split
    · exact Or.inr (Or.inr ⟨Or.inr (Or.inr ⟨_, rfl⟩), rfl⟩)
    · split
      · next statement effect htry => exact Or.inl ⟨statement, effect, htry, rfl, rfl⟩
      · split
        · split
          · next e value htry => exact Or.inr (Or.inl ⟨e, value, htry, rfl, rfl⟩)
          · exact Or.inr (Or.inr ⟨Or.inr (Or.inr ⟨_, rfl⟩), rfl⟩)
        · exact Or.inr (Or.inr ⟨Or.inr (Or.inr ⟨_, rfl⟩), rfl⟩)

/-- A line makes the write that its outcome tells of, and nothing else. -/
theorem session_runLine (s : Session) (line : String) :
    (s.runLine line).session = { s with store := s.store.replay [(s.runLine line).outcome] } := by
  rcases s.runLine_cases line with ⟨statement, effect, htry, ho, hs⟩ | ⟨e, value, -, ho, hs⟩ |
    ⟨ho | ⟨text, echoed, ho⟩ | ⟨e, ho⟩, hs⟩
  · rw [hs, ho, (Statement.store_run (run_of_tryStatement htry)).1]
  all_goals
    rw [hs, ho, Store.replay_singleton_of_none s.store rfl]

theorem store_runLine (s : Session) (line : String) :
    (s.runLine line).session.store = s.store.replay [(s.runLine line).outcome] :=
  congrArg Session.store (s.session_runLine line)

theorem isSome_of_assign {s : Session} {line name : String} {e : Expr} {value : Option Value}
    {printed : List String}
    (h : (s.runLine line).outcome = .statement (.assign name e) value printed) :
    value.isSome := by
  rcases s.runLine_cases line with ⟨statement, effect, htry, ho, -⟩ | ⟨e, value, -, ho, -⟩ |
    ⟨ho | ⟨text, echoed, ho⟩ | ⟨e, ho⟩, -⟩
  · obtain ⟨hstatement, rfl, -⟩ := Outcome.statement.inj (ho.symm.trans h)
    exact (Statement.store_run (run_of_tryStatement htry)).2 name _ hstatement
  all_goals
    exact absurd (ho.symm.trans h) (by simp)

/-! ### Runs -/

/-- What holds of the outcome of any line holds of the outcomes of any lines. -/
theorem forall_mem_runLines {P : Outcome → Prop}
    (h : ∀ (s : Session) (line : String), P (s.runLine line).outcome) (s : Session)
    (lines : List String) : ∀ o ∈ (s.runLines lines).outcomes, P o := by
  induction lines generalizing s with
  | nil => simp [runLines]
  | cons line rest ih =>
    intro o ho
    rcases List.mem_cons.mp ho with rfl | ho
    · exact h s line
    · exact ih _ o ho

theorem session_runLines (s : Session) (lines : List String) :
    (s.runLines lines).session =
      { s with store := s.store.replay (s.runLines lines).outcomes } := by
  induction lines generalizing s with
  | nil => rfl
  | cons line rest ih =>
    have houtcomes : (s.runLines (line :: rest)).outcomes = [(s.runLine line).outcome] ++
        ((s.runLine line).session.runLines rest).outcomes := rfl
    have hsession : (s.runLines (line :: rest)).session =
        ((s.runLine line).session.runLines rest).session := rfl
    rw [hsession, houtcomes, Store.replay_append, ih, s.session_runLine line]

/-- Lines run in turn are the first ones and then the others. -/
theorem runLines_append (s : Session) (xs ys : List String) :
    s.runLines (xs ++ ys) =
      let first := s.runLines xs
      let second := first.session.runLines ys
      ⟨first.outcomes ++ second.outcomes, second.session, first.events ++ second.events⟩ := by
  induction xs generalizing s with
  | nil => rfl
  | cons line rest ih => simp [runLines, ih]

/-- Calls in turn run all of their lines in turn. -/
theorem runCalls_eq_runLines (s : Session) (calls : List Call) :
    s.runCalls calls = ((s.runLines (calls.flatMap Call.lines)).outcomes,
      (s.runLines (calls.flatMap Call.lines)).session) := by
  induction calls generalizing s with
  | nil => rfl
  | cons call calls ih =>
    have hcall : call.run s = ((s.runLines call.lines).outcomes,
        (s.runLines call.lines).session) := by cases call <;> rfl
    rw [runCalls, ih, hcall, List.flatMap_cons, runLines_append]

theorem forall_mem_runCalls {P : Outcome → Prop}
    (h : ∀ (s : Session) (line : String), P (s.runLine line).outcome) (s : Session)
    (calls : List Call) : ∀ o ∈ (s.runCalls calls).1, P o := by
  rw [runCalls_eq_runLines]
  exact forall_mem_runLines h s _

theorem session_runCalls (s : Session) (calls : List Call) :
    (s.runCalls calls).2 = { s with store := s.store.replay (s.runCalls calls).1 } := by
  rw [runCalls_eq_runLines]
  exact s.session_runLines _

end Session

/-- After any calls on a fresh session, its variables are the names that outcomes
report as assigned, each once and in the order of their first assignments, with the
values of their last ones.  A line whose outcome is no assignment changes nothing. -/
theorem variables_replay_assignments (settings : Settings) (calls : List Call) :
    let run := (Session.fresh settings).runCalls calls
    let writes := run.1.filterMap Outcome.assignment?
    (∀ name e value printed, .statement (.assign name e) value printed ∈ run.1 →
      value.isSome) ∧
    run.2.store.names = (writes.map Prod.fst).eraseDups ∧
    (∀ name value, (name, value) ∈ run.2.store.entries ↔
      writes.reverse.lookup name = some value) ∧
    (∀ name, run.2.store.get? name = writes.reverse.lookup name) ∧
    (∀ (s : Session) (line : String), (s.runLine line).outcome.assignment? = none →
      (s.runLine line).session = s) := by
  intro run writes
  -- The calls are those of a fresh session, so the replay starts without variables.
  have hstore : run.2.store = Store.ofList writes :=
    congrArg Session.store ((Session.fresh settings).session_runCalls calls)
  refine ⟨?_, ?_, ?_, ?_, ?_⟩
  · intro name e value printed hmem
    refine Session.forall_mem_runCalls (P := fun o => ∀ name e value printed,
      o = .statement (.assign name e) value printed → value.isSome) ?_ _ calls _ hmem _ _ _ _ rfl
    intro s line name e value printed ho
    exact Session.isSome_of_assign ho
  · rw [hstore, Store.names_ofList]
  · intro name value
    rw [Store.mem_entries_iff, hstore, Store.get?_ofList]
  · intro name
    rw [hstore, Store.get?_ofList]
  · intro s line hnone
    rw [s.session_runLine line, Store.replay_singleton_of_none s.store hnone]

end Linewise
