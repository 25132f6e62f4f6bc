/-
Names are defined before they are read.

* `Outcome.names` — the names in the tree of an outcome;
* `isSome_get?_of_runLine` — the line of an outcome found values for all of them;
* `exists_runLine_of_runLines` — every line of a run is run over the store that the
  outcomes before it tell of;
* `names_assigned_earlier` — so in a fresh session each of these names is the target of
  an assignment that an earlier line made.
-/
import Linewise.Proofs.Evaluation
import Linewise.Proofs.Session.Replay
import Linewise.Proofs.Session.Routes

namespace Linewise

/-- The names in the tree of an outcome; an outcome without a tree has none. -/
def Outcome.names : Outcome → List String
  | statement s _ _ => s.names
  | expression e _ => e.names
  | blank | comment _ _ | error _ => []

theorem Outcome.eq_statement_of_assignment? {o : Outcome} {name : String} {value : Value}
    (h : o.assignment? = some (name, value)) :
    ∃ e printed, o = .statement (.assign name e) (some value) printed := by
  cases o with
  | statement s v printed =>
    cases s with
    | assign target e =>
      cases v with
      | none => exact absurd h (by simp [assignment?])
      | some v =>
        obtain ⟨rfl, rfl⟩ := Prod.mk.inj (Option.some.inj h)
        exact ⟨e, printed, rfl⟩
    | print e => exact absurd h (by simp [assignment?])
  | _ => exact absurd h (by simp [assignment?])

/-- A name has a value after some writes only if one of them was to it. -/
theorem Store.exists_mem_of_isSome_replay {outcomes : List Outcome} {name : String}
    (h : ((Store.empty.replay outcomes).get? name).isSome) :
    ∃ e value printed, .statement (.assign name e) value printed ∈ outcomes := by
  obtain ⟨value, hvalue⟩ := Option.isSome_iff_exists.mp h
  have hlookup := (get?_ofList (outcomes.filterMap Outcome.assignment?) name).symm.trans hvalue
  obtain ⟨before, after, hwrites, -⟩ := List.lookup_eq_some_iff.mp hlookup
  have hwrite : (name, value) ∈ outcomes.filterMap Outcome.assignment? := by
    rw [← List.mem_reverse, hwrites]
    simp
  obtain ⟨o, ho, hassignment⟩ := List.mem_filterMap.mp hwrite
  obtain ⟨e, printed, rfl⟩ := Outcome.eq_statement_of_assignment? hassignment
  exact ⟨e, some value, printed, ho⟩

namespace Session

/-- All names in the tree of an outcome had values when its line was run. -/
theorem isSome_get?_of_runLine (s : Session) (line : String) :
    ∀ name ∈ (s.runLine line).outcome.names, (s.store.get? name).isSome := by
  rcases s.runLine_cases line with ⟨statement, effect, htry, ho, -⟩ | ⟨e, value, htry, ho, -⟩ |
    ⟨ho | ⟨text, echoed, ho⟩ | ⟨e, ho⟩, -⟩
  · rw [ho]
    exact Statement.isSome_get?_of_run (run_of_tryStatement htry)
  · rw [ho]
    exact Expr.isSome_get?_of_eval (eval_of_tryExpression htry)
  all_goals
    rw [ho]
    exact fun _ h => absurd h List.not_mem_nil

/-- Every line of a run is run over the store that the outcomes before it tell of. -/
theorem exists_runLine_of_runLines {s : Session} {lines : List String} {i : Nat} {o : Outcome}
    (h : (s.runLines lines).outcomes[i]? = some o) :
    ∃ (before : Session) (line : String),
      before.store = s.store.replay ((s.runLines lines).outcomes.take i) ∧
        (before.runLine line).outcome = o := by
  induction lines generalizing s i with
  | nil => exact absurd h (by simp [runLines])
  | cons line rest ih =>
    cases i with
    | zero => exact ⟨s, line, rfl, Option.some.inj h⟩
    | succ i =>
      obtain ⟨before, line', hstore, hline'⟩ := ih h
      refine ⟨before, line', ?_, hline'⟩
      rw [hstore, store_runLine, ← Store.replay_append]
      rfl

/-- After any calls on a fresh session, every name in the tree of an outcome is the target
of an assignment that an earlier line made.  The outcomes are those of all lines that the
calls run, in turn. -/
theorem names_assigned_earlier (settings : Settings) (calls : List Call) {i : Nat}
    {o : Outcome} (h : ((Session.fresh settings).runCalls calls).1[i]? = some o) :
    ∀ name ∈ o.names, ∃ j < i, ∃ e value printed,
      ((Session.fresh settings).runCalls calls).1[j]? =
        some (.statement (.assign name e) value printed) := by
  rw [runCalls_eq_runLines] at h ⊢
  obtain ⟨before, line, hstore, rfl⟩ := exists_runLine_of_runLines h
  intro name hname
  have hvalue := isSome_get?_of_runLine before line name hname
  rw [hstore] at hvalue
  obtain ⟨e, value, printed, hmem⟩ := Store.exists_mem_of_isSome_replay hvalue
  obtain ⟨j, hj⟩ := List.mem_iff_getElem?.mp hmem
  rw [List.getElem?_take] at hj
  split at hj
  · next hlt => exact ⟨j, hlt, e, value, printed, hj⟩
  · exact absurd hj (by simp)

/-- The name was assigned by the line before, which the second operand needs as well. -/
theorem names_assigned_earlier_disjunction :
    let run := (Session.fresh {}).runCalls [.runLine "x = true ;", .runLine "x or x"]
    run.1[1]? = some (.expression (.binary (.logic .or) (.var "x") (.var "x")) (.boolean true)) ∧
      ∃ j < 1, ∃ e value printed,
        run.1[j]? = some (.statement (.assign "x" e) value printed) := by
  intro run
  have hx : (Kind.name "x").WellFormed := Kind.wellFormed_letter rfl rfl rfl
  have hassign := @TokenStream.ofString_spelled [.name "x", .assign, .boolean true, .semicolon]
    (by simpa only [List.forall_mem_cons] using ⟨hx, trivial, trivial, trivial, by simp⟩)
  have hor := @TokenStream.ofString_spelled [.name "x", .or .word, .name "x"]
    (by simpa only [List.forall_mem_cons] using ⟨hx, trivial, hx, by simp⟩)
  rw [show String.ofList (spelled _) = "x = true ;" from rfl] at hassign
  rw [show String.ofList (spelled _) = "x or x" from rfl] at hor
  have hstatement : Statement.ofLine 200 "x = true ;" = .ok (.assign "x" (.boolean true)) := by
    rw [Statement.ofLine, Reader.ofString, hassign]
    rfl
  have hexpression : Expr.ofLine 200 "x or x" =
      .ok (.binary (.logic .or) (.var "x") (.var "x")) := by
    rw [Expr.ofLine, Reader.ofString, hor]
    rfl
  obtain ⟨-, hsession⟩ := (@runLine_of_statement_accepted (Session.fresh {}) "x = true ;" rfl
    (by decide) _ hstatement).1 ⟨Store.empty.set "x" (.boolean true), some (.boolean true), []⟩ rfl
  have houtcome : run.1[1]? = some (.expression (.binary (.logic .or) (.var "x") (.var "x"))
      (.boolean true)) := by
    change some (((Session.fresh {}).runLine "x = true ;").session.runLine "x or x").outcome = _
    rw [hsession, (runLine_of_expression_accepted rfl (by decide) hexpression).2]
    rfl
  exact ⟨houtcome, names_assigned_earlier {} _ houtcome "x" (by decide)⟩

end Session

end Linewise
