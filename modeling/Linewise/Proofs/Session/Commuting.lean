/-
Lines that do not touch each other's variables run in either order.

* `Session.namesRead`, `Session.namesWritten` — the names that a line reads, and the one
  that it assigns, if it spells a phrase at all;
* `outcome_congr` — the outcome of a line depends on the values of the names that it reads
  only;
* `get?_runLine` — a line changes the values of no names but those that it writes;
* `runLine_commute` — so two lines have the same outcomes in either order and leave the
  same values, if neither writes what the other one reads or writes.

Design notes: the order in which new names are listed is that in which they are first
assigned, so it is the values of the names that agree, and not the lists.
-/
import Linewise.Proofs.Session.Definitions
import Linewise.Proofs.Session.Phrase
import Mathlib.Data.List.Basic

namespace Linewise

/-- The names that a phrase reads. -/
def Phrase.names : Phrase → List String
  | statement s => s.names
  | expression e => e.names

/-- What becomes of a phrase depends on the values of the names that it reads only. -/
theorem Phrase.outcome_congr {p : Phrase} {store store' : Store}
    (h : ∀ name ∈ p.names, store.get? name = store'.get? name) :
    p.outcome store = p.outcome store' := by
  cases p with
  | expression e => rw [outcome, outcome, Expr.eval_congr h]
  | statement s =>
    cases s with
    | assign name e =>
      rw [outcome, outcome, Statement.run, Statement.run, Expr.eval_congr h]
      cases e.eval store' <;> rfl
    | print e =>
      rw [outcome, outcome, Statement.run, Statement.run, Expr.eval_congr h]
      cases e.eval store' <;> rfl

/-- The value of a name after the write that an outcome tells of. -/
theorem Store.get?_replay_singleton (store : Store) (o : Outcome) (name : String) :
    (store.replay [o]).get? name =
      match o.assignment? with
      | some (target, value) => if name = target then some value else store.get? name
      | none => store.get? name := by
  cases ho : o.assignment? with
  | none => rw [replay_singleton_of_none store ho]
  | some write =>
    obtain ⟨target, value⟩ := write
    have hreplay : store.replay [o] = store.set target value := by
      simp [replay, ho]
    rw [hreplay, get?_set]

/-- The writes of two outcomes to different names can be made in either order. -/
theorem Store.get?_replay_comm (store : Store) {o o' : Outcome}
    (h : ∀ write ∈ o.assignment?, ∀ write' ∈ o'.assignment?, write.1 ≠ write'.1)
    (name : String) :
    ((store.replay [o]).replay [o']).get? name = ((store.replay [o']).replay [o]).get? name := by
  simp only [get?_replay_singleton]
  cases ho : o.assignment? with
  | none => rfl
  | some write =>
    cases ho' : o'.assignment? with
    | none => rfl
    | some write' =>
      have hne : write.1 ≠ write'.1 := h write ho write' ho'
      by_cases hname : name = write.1
      · simp [hname, hne]
      · simp [hname]

namespace Session

/-- The names that a line reads, if it spells a phrase. -/
def namesRead (s : Session) (line : String) : List String :=
  match Phrase.ofLine s.settings.limits.maxNestingDepth line with
  | .ok p => p.names
  | .error _ => []

/-- The name that a line assigns, if it spells an assignment. -/
def namesWritten (s : Session) (line : String) : List String :=
  match Statement.ofLine s.settings.limits.maxNestingDepth line with
  | .ok (.assign name _) => [name]
  | _ => []

variable {s : Session} {line : String}

/-- The outcome of a line depends on the values of the names that it reads only. -/
theorem outcome_congr {store : Store}
    (h : ∀ name ∈ s.namesRead line, store.get? name = s.store.get? name) :
    ({ s with store := store }.runLine line).outcome = (s.runLine line).outcome := by
  rcases s.line_cases line with hblank | ⟨text, hcomment⟩ | ⟨hblank, hcomment, hfits⟩ | hreads
  · rw [runLine_of_blank hblank, runLine_of_blank hblank]
  · rw [runLine_of_comment hcomment, runLine_of_comment hcomment]
  · have hfits' : ¬ { s with store := store }.Fits line := hfits
    rw [runLine_of_not_fits hblank hcomment hfits, runLine_of_not_fits hblank hcomment hfits']
    rfl
  · have hreads' : { s with store := store }.Reads line :=
      ⟨hreads.notBlank, hreads.notComment, hreads.fits⟩
    have hphrase : { s with store := store }.phrase line = s.phrase line := rfl
    rw [outcome_of_reads hreads, outcome_of_reads hreads', hphrase]
    cases hread : s.phrase line with
    | error error => rfl
    | ok p =>
      have hnames : s.namesRead line = p.names := by
        rw [namesRead, ofLine_of_phrase hread]
      exact Phrase.outcome_congr (hnames ▸ h)

theorem mem_namesWritten {write : String × Value}
    (h : (s.runLine line).outcome.assignment? = some write) : write.1 ∈ s.namesWritten line := by
  obtain ⟨name, value⟩ := write
  obtain ⟨e, printed, ho⟩ := Outcome.eq_statement_of_assignment? h
  rcases s.runLine_cases line with ⟨statement, effect, htry, ho', -⟩ | ⟨e', v, -, ho', -⟩ |
    ⟨ho' | ⟨text, echoed, ho'⟩ | ⟨error, ho'⟩, -⟩
  · obtain ⟨rfl, -, -⟩ := Outcome.statement.inj (ho'.symm.trans ho)
    rw [namesWritten, ofLine_of_tryStatement htry]
    exact List.mem_cons_self
  all_goals exact absurd (ho'.symm.trans ho) (by simp)

/-- A line changes the values of no names but those that it writes. -/
theorem get?_runLine {name : String} (h : name ∉ s.namesWritten line) :
    (s.runLine line).session.store.get? name = s.store.get? name := by
  rw [store_runLine, Store.get?_replay_singleton]
  split
  · next target value hwrite =>
    have hne : name ≠ target := fun heq => h (heq ▸ mem_namesWritten hwrite)
    rw [if_neg hne]
  · rfl

/-- The outcome of a line is the same after a line that writes none of the names that it
reads. -/
theorem outcome_after {first : String}
    (h : (s.namesWritten first).Disjoint (s.namesRead line)) :
    ((s.runLine first).session.runLine line).outcome = (s.runLine line).outcome := by
  have hsession : (s.runLine first).session =
      { s with store := (s.runLine first).session.store } := by rw [s.session_runLine first]
  rw [hsession]
  exact outcome_congr fun name hname => get?_runLine fun hwritten => h hwritten hname

/-- Of two lines of which neither writes a name that the other one reads or writes, each
has the same outcome after the other one and before it, and every name has the same value
after both of them in either order. -/
theorem runLine_commute {a b : String}
    (hread : (s.namesWritten a).Disjoint (s.namesRead b))
    (hwritten : (s.namesWritten a).Disjoint (s.namesWritten b))
    (hread' : (s.namesWritten b).Disjoint (s.namesRead a)) :
    let afterA := s.runLine a
    let afterB := s.runLine b
    let ab := afterA.session.runLine b
    let ba := afterB.session.runLine a
    afterA.outcome = ba.outcome ∧ ab.outcome = afterB.outcome ∧
      ∀ name, ab.session.store.get? name = ba.session.store.get? name := by
  intro afterA afterB ab ba
  have hab : ab.outcome = afterB.outcome := outcome_after hread
  have hba : ba.outcome = afterA.outcome := outcome_after hread'
  refine ⟨hba.symm, hab, fun name => ?_⟩
  have hstore : ab.session.store =
      (s.store.replay [afterA.outcome]).replay [afterB.outcome] := by
    rw [store_runLine, store_runLine, hab]
  have hstore' : ba.session.store =
      (s.store.replay [afterB.outcome]).replay [afterA.outcome] := by
    rw [store_runLine, store_runLine, hba]
  rw [hstore, hstore']
  refine s.store.get?_replay_comm (fun write hwrite write' hwrite' heq => ?_) name
  exact hwritten (mem_namesWritten hwrite) (heq ▸ mem_namesWritten hwrite')

/-- Both lines read the same variable, and the names that they assign are listed in the
order of the lines. -/
theorem runLine_commute_assignments :
    let s : Session := ⟨{}, Store.empty.set "y" (.boolean true)⟩
    let a := "x" ++ " = " ++ "y" ++ ";"
    let b := "z" ++ " = " ++ "y" ++ ";"
    (s.namesWritten a).Disjoint (s.namesRead b) ∧ (s.namesWritten a).Disjoint (s.namesWritten b) ∧
      (s.namesWritten b).Disjoint (s.namesRead a) ∧
      ((s.runLine a).session.runLine b).session.store.names = ["y", "x", "z"] ∧
      ((s.runLine b).session.runLine a).session.store.names = ["y", "z", "x"] ∧
      ∀ name, ((s.runLine a).session.runLine b).session.store.get? name =
        ((s.runLine b).session.runLine a).session.store.get? name := by
  intro s a b
  have hx : Identifier "x" := ⟨⟨'x', [], rfl, rfl, by simp⟩, by decide⟩
  have hy : Identifier "y" := ⟨⟨'y', [], rfl, rfl, by simp⟩, by decide⟩
  have hz : Identifier "z" := ⟨⟨'z', [], rfl, rfl, by simp⟩, by decide⟩
  have hopen : EndsOpen "y" := by
    intro t ht
    have hline : LineWord "y" [.name "y"] := lineWord_spelling hy.wellFormed
    have hkind := List.mem_map_of_mem (f := Token.kind) (List.mem_of_getLast? ht)
    rw [(lineWord_iff.mp hline).2] at hkind
    simp [List.mem_singleton.mp hkind]
  have hread : ∀ limit name, Identifier name →
      Statement.ofLine limit (name ++ " = " ++ "y" ++ ";") = .ok (.assign name (.var "y")) :=
    fun limit name hname => Statement.ofLine_assign (Expr.ofLine_name limit hy) hopen hname
  have hwritten : ∀ name, Identifier name →
      s.namesWritten (name ++ " = " ++ "y" ++ ";") = [name] := by
    intro name hname
    rw [namesWritten, hread _ name hname]
  have hnames : ∀ name, Identifier name → s.namesRead (name ++ " = " ++ "y" ++ ";") = ["y"] := by
    intro name hname
    rw [namesRead, Phrase.ofLine, hread _ name hname]
    rfl
  have hsession : ∀ (t : Session) name, Identifier name → t.settings = {} →
      t.store.get? "y" = some (.boolean true) → t.Fits (name ++ " = " ++ "y" ++ ";") →
      (t.runLine (name ++ " = " ++ "y" ++ ";")).session =
        { t with store := t.store.set name (.boolean true) } := by
    intro t name hname hsettings hvalue hfits
    have hrun : (Statement.assign name (.var "y")).run t.store =
        .ok ⟨t.store.set name (.boolean true), some (.boolean true), []⟩ := by
      rw [Statement.run, Expr.eval, Store.get, hvalue]
      rfl
    exact ((runLine_of_statement_accepted (by rw [hsettings]) hfits (hread _ name hname)).1 _
      hrun).2
  have hab : (s.namesWritten a).Disjoint (s.namesRead b) := by
    rw [hwritten "x" hx, hnames "z" hz]
    simp
  have hwrites : (s.namesWritten a).Disjoint (s.namesWritten b) := by
    rw [hwritten "x" hx, hwritten "z" hz]
    simp
  have hba : (s.namesWritten b).Disjoint (s.namesRead a) := by
    rw [hwritten "z" hz, hnames "x" hx]
    simp
  have hfits : s.Fits a ∧ s.Fits b := by decide
  refine ⟨hab, hwrites, hba, ?_, ?_, (runLine_commute hab hwrites hba).2.2⟩
  · rw [hsession s "x" hx rfl rfl hfits.1,
      hsession ⟨{}, s.store.set "x" (.boolean true)⟩ "z" hz rfl rfl hfits.2]
    rfl
  · rw [hsession s "z" hz rfl rfl hfits.2,
      hsession ⟨{}, s.store.set "z" (.boolean true)⟩ "x" hx rfl rfl hfits.1]
    rfl

end Session

end Linewise
