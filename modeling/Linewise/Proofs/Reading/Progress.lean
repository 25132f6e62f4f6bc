/-
A descent makes progress and ends.

* `Activation.Ahead` — how far a descent has come since a rule that is active was entered;
* `progresses_of_moves` — every step keeps that;
* `Reader.descent_progresses` — every descent ends with what the reader reads, and no rule is
  called and no loop goes round without a token in between.

Design notes: at one token the rules can only be called in their order, so a rule that is
called again has a token more behind it.  That is a lexicographic measure: first the number of
tokens that are left, then the place of the rule.  A statement counts as entered after its
first token, because its expression can start there at the earliest.
-/
import Linewise.Proofs.Reading.Agreement

namespace Linewise

open Linewise.Parser

/-- The place of the rule that a task is left of.  A right side is read from the first rule
on. -/
def Task.rank (task : Task) : Nat :=
  match task.rule? with
  | some rule => rule.rank
  | none => 0

theorem Task.rank_of_rule? {task : Task} {rule : Rule} (h : task.rule? = some rule) :
    task.rank = rule.rank := by
  rw [rank, h]

namespace Activation

/-- The number of tokens that are left at most when the active rule calls another one. -/
def bound (a : Activation) : Nat :=
  if a.task.rule? = some .statement then a.entry.size - 1 else a.entry.size

/-- Where `size` tokens are left, a rule of the given place may be called within `a`: a token
was taken since `a` was entered, or the rule comes later in the order. -/
def Ahead (size rank : Nat) (a : Activation) : Prop :=
  size < a.bound ∨ size = a.bound ∧ a.task.rank < rank

variable {a : Activation} {size size' rank rank' : Nat}

theorem bound_le (a : Activation) : a.bound ≤ a.entry.size := by
  rw [bound]
  split
  · exact Nat.sub_le _ _
  · exact Nat.le_refl _

theorem bound_of_inner (h : a.task.rule? ≠ some .statement) : a.bound = a.entry.size := if_neg h

theorem Ahead.mono (h : a.Ahead size rank) (hrank : rank ≤ rank') : a.Ahead size rank' := by
  rcases h with h | ⟨hsize, h⟩
  · exact Or.inl h
  · exact Or.inr ⟨hsize, Nat.lt_of_lt_of_le h hrank⟩

theorem Ahead.lt (h : a.Ahead size rank) (hsize : size' < size) : size' < a.bound := by
  rcases h with h | ⟨rfl, -⟩
  · exact Nat.lt_trans hsize h
  · exact hsize

end Activation

/-- The least number of tokens that a phrase takes. -/
def Phrase.least : Phrase → Nat
  | statement _ => 3
  | expression _ => 1

namespace Descent

/-! ### What one step preserves -/

/-- How far a descent that has started with `total` tokens has come in a mode. -/
def AheadIn (total : Nat) (active : List Activation) (p : Parser) : Mode → Prop
  | .enter rule => ∀ a ∈ active, a.Ahead p.size rule.rank
  | .due _ _ => ∀ a ∈ active, a.Ahead p.size 1
  | .leave entry (.ok _) =>
    entry.size ≤ total ∧ p.size < entry.size ∧ ∀ a ∈ active, p.size < a.bound
  | .leave _ (.error _) => True
  | .done (.ok phrase) => p.size + phrase.least ≤ total
  | .done (.error _) => True

/-- A descent that has started with `total` tokens makes progress. -/
structure Progresses (total : Nat) (m : Descent) : Prop where
  size_le : m.parser.size ≤ total
  entry_le : ∀ a ∈ m.active, a.entry.size ≤ total
  tested_lt : ∀ a ∈ m.active, ∀ tested, a.task.tested? = some tested →
    m.parser.size < tested.tokens.length
  ahead : AheadIn total m.active m.parser m.mode

variable {limit : Int} {total : Nat} {m m' : Descent}

theorem progresses_start (goal : Goal) (p : Parser) : Progresses p.size (start goal p) where
  size_le := Nat.le_refl _
  entry_le := by simp [start]
  tested_lt := by simp [start]
  ahead := by simp [start, AheadIn]

theorem progresses_of_moves (h : Moves limit m m') (hm : Progresses total m) :
    Progresses total m' := by
  obtain ⟨hsize_le, hentry, htested, hahead⟩ := hm
  -- Taking tokens keeps what holds of earlier tests.
  have hlater : ∀ {size : Nat}, size ≤ m.parser.size → ∀ a ∈ m.active, ∀ tested,
      a.task.tested? = some tested → size < tested.tokens.length :=
    fun hle a ha tested h => Nat.lt_of_le_of_lt hle (htested a ha tested h)
  cases h with
  | @call rule n task active p hrule hinner hrank hnone hrestore =>
    have hbound : (⟨task, p⟩ : Activation).bound = p.size :=
      Activation.bound_of_inner (by simpa [hrule] using hinner)
    refine ⟨hsize_le, List.forall_mem_cons.mpr ⟨hsize_le, hentry⟩,
      List.forall_mem_cons.mpr ⟨by simp [hnone], htested⟩, List.forall_mem_cons.mpr ⟨?_, ?_⟩⟩
    -- No token was taken, but the rule that is called comes later in the order.
    · exact Or.inr ⟨hbound.symm, (Task.rank_of_rule? hrule).symm ▸ hrank⟩
    · exact fun a ha => (hahead a ha).mono (Nat.le_of_lt hrank)
  | @deepen rule n task active p hrule hinner hnone hrestore hdepth hsize =>
    have hbound : (⟨task, p⟩ : Activation).bound = p.size :=
      Activation.bound_of_inner (by simpa [hrule] using hinner)
    have hle := Nat.le_of_lt hsize
    refine ⟨Nat.le_trans hle hsize_le, List.forall_mem_cons.mpr ⟨hsize_le, hentry⟩,
      List.forall_mem_cons.mpr ⟨by simp [hnone], hlater hle⟩, List.forall_mem_cons.mpr ⟨?_, ?_⟩⟩
    · exact Or.inl (hbound.symm ▸ hsize)
    · exact fun a ha => Or.inl ((hahead a ha).lt hsize)
  | @answer n active p p' result hfollows hsize =>
    have hle := hfollows.size_le
    refine ⟨Nat.le_trans hle hsize_le, hentry, hlater hle, ?_⟩
    cases result with
    | error error => trivial
    | ok e =>
      have hlt := hsize e rfl
      exact ⟨hsize_le, hlt, fun a ha => (hahead a ha).lt hlt⟩
  | @begin n active p =>
    exact ⟨hsize_le, hentry, htested, fun a ha => (hahead a ha).mono n.one_le_rank⟩
  | @beginRight n column active p hdepth =>
    refine ⟨hsize_le, List.forall_mem_cons.mpr ⟨hsize_le, hentry⟩,
      List.forall_mem_cons.mpr ⟨by simp [Task.tested?], htested⟩,
      List.forall_mem_cons.mpr ⟨?_, ?_⟩⟩
    · exact Or.inr ⟨rfl, n.one_le_rank⟩
    · exact fun a ha => (hahead a ha).mono n.one_le_rank
  | @back mode a active p p' result hmode hinner hfollows hresult =>
    have hle := hfollows.size_le
    obtain ⟨hentry_le, hentry⟩ := List.forall_mem_cons.mp hentry
    obtain ⟨-, htested⟩ := List.forall_mem_cons.mp (hlater hle)
    refine ⟨Nat.le_trans hle hsize_le, hentry, htested, ?_⟩
    cases result with
    | error error => trivial
    | ok e =>
      obtain ⟨entry, e', rfl⟩ := hresult e rfl
      obtain ⟨hbound, hbounds⟩ := List.forall_mem_cons.mp hahead.2.2
      refine ⟨hentry_le, ?_, fun b hb => Nat.lt_of_le_of_lt hle (hbounds b hb)⟩
      exact Nat.lt_of_lt_of_le (Nat.lt_of_le_of_lt hle hbound) a.bound_le
  | @fold entry a active p e left c op column? hrule hdepth hsize =>
    have hle := Nat.le_of_lt hsize
    obtain ⟨hentry_le, hentry⟩ := List.forall_mem_cons.mp hentry
    obtain ⟨-, htested⟩ := List.forall_mem_cons.mp (hlater hle)
    obtain ⟨hbound, hbounds⟩ := List.forall_mem_cons.mp hahead.2.2
    refine ⟨Nat.le_trans hle hsize_le, List.forall_mem_cons.mpr ⟨hentry_le, hentry⟩,
      List.forall_mem_cons.mpr ⟨fun tested h => ?_, htested⟩, List.forall_mem_cons.mpr ⟨?_, ?_⟩⟩
    · obtain rfl := Option.some.inj h
      exact hsize
    · exact Or.inl (Nat.lt_trans hsize (Nat.lt_of_lt_of_le hbound a.bound_le))
    · exact fun b hb => Or.inl (Nat.lt_trans hsize (hbounds b hb))
  | @done mode p result hmode hresult =>
    refine ⟨hsize_le, hentry, htested, ?_⟩
    cases result with
    | error error => trivial
    | ok e =>
      obtain ⟨entry, rfl⟩ := hresult e rfl
      exact Nat.lt_of_lt_of_le hahead.2.1 hahead.1
  | @beginStatement make active p p' hfollows hsize =>
    have hle := hfollows.size_le
    have hbound : (⟨.statement make, p⟩ : Activation).bound = p.size - 1 := rfl
    refine ⟨Nat.le_trans hle hsize_le, List.forall_mem_cons.mpr ⟨hsize_le, hentry⟩,
      List.forall_mem_cons.mpr ⟨by simp [Task.tested?], hlater hle⟩,
      List.forall_mem_cons.mpr ⟨?_, fun a ha => Or.inl ((hahead a ha).lt hsize)⟩⟩
    -- One token is not enough to be ahead of a statement; the place of its rule decides then.
    rcases Nat.lt_or_eq_of_le (Nat.le_sub_one_of_lt hsize) with hlt | heq
    · exact Or.inl hlt
    · exact Or.inr ⟨heq, Nat.zero_lt_one⟩
  | failStatement hfollows =>
    have hle := hfollows.size_le
    exact ⟨Nat.le_trans hle hsize_le, hentry, hlater hle, trivial⟩
  | @endStatement mode make entry active p p' result hmode hfollows hresult =>
    have hle := hfollows.size_le
    obtain ⟨hentry_le, hentry⟩ := List.forall_mem_cons.mp hentry
    obtain ⟨-, htested⟩ := List.forall_mem_cons.mp (hlater hle)
    refine ⟨Nat.le_trans hle hsize_le, hentry, htested, ?_⟩
    cases result with
    | error error => trivial
    | ok phrase =>
      obtain ⟨⟨e, rfl⟩, hsize, entry', e', rfl⟩ := hresult phrase rfl
      obtain ⟨hbound, -⟩ := List.forall_mem_cons.mp hahead.2.2
      -- One token before the expression, one in it at least, and the semicolon.
      have hlt : p.size < entry.size - 1 := hbound
      have htotal : entry.size ≤ total := hentry_le
      simp only [AheadIn, Phrase.least]
      omega

theorem progresses_iterate (limit : Int) (goal : Goal) (p : Parser) (k : Nat) :
    Progresses p.size ((step limit)^[k] (start goal p)) :=
  iterate_induction progresses_of_moves (progresses_start goal p) k

/-! ### Whole descents -/

theorem Progresses.lt_of_enter {rule : Rule} {a : Activation} (h : Progresses total m)
    (hmode : m.mode = .enter rule) (ha : a ∈ m.active) (hrule : a.task.rule? = some rule) :
    m.parser.size < a.entry.size := by
  have hahead := h.ahead
  rw [hmode] at hahead
  rcases hahead a ha with hlt | ⟨-, hrank⟩
  · exact Nat.lt_of_lt_of_le hlt a.bound_le
  · rw [Task.rank_of_rule? hrule] at hrank
    exact absurd hrank (Nat.lt_irrefl _)

theorem Progresses.least_le {phrase : Phrase} (h : Progresses total m)
    (hmode : m.mode.result? = some (.ok phrase)) : m.parser.size + phrase.least ≤ total := by
  have hahead := h.ahead
  rwa [Mode.result?_eq_some_iff.mp hmode] at hahead

theorem cost_start_le (goal : Goal) (p : Parser) : (start goal p).cost ≤ 25 * p.size + 21 := by
  cases goal <;> simp [cost, start, Goal.rule, Nonterminal.rank]

end Descent

/-- The least number of tokens of what is asked for. -/
def Goal.least : Goal → Nat
  | statement => 3
  | expression => 1

theorem Reader.least_of_read {r : Reader} {goal : Goal} {phrase : Phrase}
    (h : (r.read goal).1 = .ok phrase) : phrase.least = goal.least := by
  cases goal with
  | statement =>
    cases hresult : r.statement.result with
    | error error => simp [read, Attempt.outcome, hresult, Except.map] at h
    | ok s =>
      obtain rfl : .statement s = phrase := by
        simpa [read, Attempt.outcome, hresult, Except.map] using h
      rfl
  | expression =>
    cases hresult : r.expression.result with
    | error error => simp [read, Attempt.outcome, hresult, Except.map] at h
    | ok e =>
      obtain rfl : .expression e = phrase := by
        simpa [read, Attempt.outcome, hresult, Except.map] using h
      rfl

/-- From every place in a line and for every limit, the descent for a statement or an expression
ends, after at most twenty-five steps for each token and twenty-one more, with what the reader
reads.  It never moves back.  When a rule is called that is active already, fewer tokens are left
than when it was called before, on top of the same rules; and as long as a right operand of a
chain is read, and when it is folded, fewer tokens are left than when the loop of this chain was
tested.  A statement that is read has taken three tokens at least, and an expression one. -/
theorem Reader.descent_progresses (r : Reader) (goal : Goal) :
    let m := fun k => (Descent.step r.limit)^[k] (Descent.start goal r.parser)
    let last := m (25 * r.parser.size + 21)
    (last.mode = .done (r.read goal).1 ∧ last.parser = (r.read goal).2) ∧
    (∀ j k, j ≤ k → (m k).parser.input.IsRest (m j).parser.input) ∧
    (∀ k rule above a below, (m k).mode = .enter rule → (m k).active = above ++ a :: below →
      a.task.rule? = some rule →
        ∃ j < k, (m j).Entered (some rule) a.entry below ∧
          (m k).parser.size < (m j).parser.size) ∧
    (∀ k above a below tested, (m k).active = above ++ a :: below →
      a.task.tested? = some tested →
        ∃ j < k, (m j).Tests tested a.entry below ∧ (m k).parser.size < (m j).parser.size) ∧
    ∀ phrase, (r.read goal).1 = .ok phrase →
      (r.read goal).2.size + goal.least ≤ r.parser.size := by
  intro m last
  have hprogress : ∀ k, Descent.Progresses r.parser.size (m k) :=
    Descent.progresses_iterate r.limit goal r.parser
  obtain ⟨hdone, hparser⟩ :=
    Descent.result?_iterate r.limit (Descent.cost_start_le goal r.parser)
  rw [finish_start] at hdone hparser
  refine ⟨⟨?_, hparser⟩, fun j k hjk => Descent.isRest_iterate r.limit _ hjk, ?_, ?_, ?_⟩
  · exact Mode.result?_eq_some_iff.mp hdone
  · intro k rule above a below hmode hactive hrule
    have hrecorded := (Descent.remembers_iterate r.limit goal r.parser k).active
    obtain ⟨⟨_, ⟨j, hj, rfl⟩, hentered⟩, -⟩ := (hactive ▸ hrecorded).of_append
    rw [hrule] at hentered
    refine ⟨j, hj, hentered, ?_⟩
    have hmem : a ∈ (m k).active := by
      rw [hactive]
      simp
    exact hentered.parser ▸ (hprogress k).lt_of_enter hmode hmem hrule
  · intro k above a below tested hactive htested
    have hrecorded := (Descent.remembers_iterate r.limit goal r.parser k).active
    obtain ⟨-, htests⟩ := (hactive ▸ hrecorded).of_append
    obtain ⟨_, ⟨j, hj, rfl⟩, htests⟩ := htests tested htested
    have hmem : a ∈ (m k).active := by
      rw [hactive]
      simp
    have hlt := (hprogress k).tested_lt a hmem tested htested
    rw [← htests.input] at hlt
    exact ⟨j, hj, htests, hlt⟩
  · intro phrase hphrase
    rw [← least_of_read hphrase, ← hparser]
    exact (hprogress _).least_le (hphrase ▸ hdone)

end Linewise
