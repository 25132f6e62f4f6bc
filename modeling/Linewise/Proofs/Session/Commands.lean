/-
Commands of the shell leave no trace.

* `ShellInput.isCommand` — whether an input is a command, whatever the command;
* `ShellInput.ofString_vars` — the inputs that ask for the variables;
* `session_handle_of_command` — a command leaves the session as it is;
* `session_handleAll_sources`, `replies_handleAll_sources`, `getElem?_handleAll` — so a run
  of the shell is the run of its source lines, with the replies to commands put between;
* `handleAll_without_commands` — what that means for any inputs.

Design notes: a command is told by its first character alone.  Whether its word is known
and what follows it is for the reply only, so no case on the command is made after the
first lemma on the session.
-/
import Linewise.Proofs.Session.Shell

namespace Linewise

namespace ShellInput

/-- Whether an input is a command: without its blanks it starts with a colon. -/
def isCommand (input : String) : Bool := (Text.trim input).toList.head? == some ':'

variable {input : String}

theorem ofString_ne_source_of_command (h : isCommand input = true) (line : String) :
    ofString input ≠ .source line := by
  have hcolon : (Text.trim input).toList.head? = some ':' := by simpa [isCommand] using h
  simp only [ofString, if_pos hcolon]
  split <;> simp

/-- The variables are asked for by the word of the command; what follows it is left out. -/
theorem ofString_vars
    (h : (Text.trim input).toList.takeWhile (· != ' ') = ":vars".toList) :
    ofString input = .vars := by
  have hword : ":vars".toList = [':', 'v', 'a', 'r', 's'] := by decide
  have hcolon : (Text.trim input).toList.head? = some ':' := by
    have hhead : ((Text.trim input).toList.takeWhile (· != ' ')).head? = some ':' := by
      rw [h, hword]
      rfl
    rw [List.head?_takeWhile] at hhead
    exact Option.eq_some_of_filter_eq_some hhead
  simp only [ofString, if_pos hcolon, h]
  rfl

/-- The inputs that are no commands. -/
def sources (inputs : List String) : List String := inputs.filter fun input => !isCommand input

theorem sources_cons_of_command (h : isCommand input = true)
    (rest : List String) : sources (input :: rest) = sources rest :=
  List.filter_cons_of_neg (by simp [h])

theorem sources_cons_of_source (h : isCommand input = false)
    (rest : List String) : sources (input :: rest) = input :: sources rest :=
  List.filter_cons_of_pos (by simp [h])

end ShellInput

open ShellInput

namespace Session

variable (s : Session)

/-- A command leaves the session as it is. -/
theorem session_handle_of_command {input : String} (h : isCommand input = true) :
    (s.handle input).session = s := by
  cases hinput : ShellInput.ofString input with
  | source line => exact absurd hinput (ofString_ne_source_of_command h line)
  | _ => simp only [handle, hinput]

theorem session_handleAll_sources (inputs : List String) :
    (s.handleAll (sources inputs)).2 = (s.handleAll inputs).2 := by
  -- For every session, because a source line leaves another one.
  induction inputs generalizing s with
  | nil => rfl
  | cons input rest ih =>
    cases hinput : isCommand input with
    | true =>
      rw [sources_cons_of_command hinput, ih, handleAll, s.session_handle_of_command hinput]
    | false => rw [sources_cons_of_source hinput, handleAll, handleAll, ih]

theorem length_replies_handleAll (inputs : List String) :
    (s.handleAll inputs).1.length = inputs.length := by
  induction inputs generalizing s with
  | nil => rfl
  | cons input rest ih => exact congrArg Nat.succ (ih _)

/-- The source lines among any inputs have the replies that they have alone. -/
theorem replies_handleAll_sources (inputs : List String) :
    ((inputs.zip (s.handleAll inputs).1).filter fun r => !isCommand r.1).map Prod.snd =
      (s.handleAll (sources inputs)).1 := by
  induction inputs generalizing s with
  | nil => rfl
  | cons input rest ih =>
    rw [handleAll, List.zip_cons_cons]
    cases hinput : isCommand input with
    | true =>
      rw [sources_cons_of_command hinput, List.filter_cons_of_neg (by simp [hinput]), ih,
        s.session_handle_of_command hinput]
    | false =>
      rw [sources_cons_of_source hinput, List.filter_cons_of_pos (by simp [hinput]),
        List.map_cons, ih, handleAll]

/-- An input is answered by the session that the inputs before it leave. -/
theorem getElem?_handleAll {inputs : List String} {i : Nat} {input : String}
    (h : inputs[i]? = some input) :
    (s.handleAll inputs).1[i]? = some ((s.handleAll (inputs.take i)).2.handle input).reply := by
  induction inputs generalizing s i with
  | nil => exact absurd h (by simp)
  | cons first rest ih =>
    cases i with
    | zero =>
      obtain rfl := Option.some.inj h
      rfl
    | succ i =>
      rw [List.getElem?_cons_succ] at h
      rw [List.take_succ_cons, handleAll, handleAll, List.getElem?_cons_succ]
      exact ih _ h

/-- Commands among the inputs of a shell change neither the replies to the other inputs
nor the session after them.  Each command is answered as if only the other inputs had been
given before it; one that asks for the variables gets the list of those that these leave. -/
theorem handleAll_without_commands (s : Session) (inputs : List String) :
    let replies := (s.handleAll inputs).1
    replies.length = inputs.length ∧
    ((inputs.zip replies).filter fun r => !isCommand r.1).map Prod.snd =
      (s.handleAll (sources inputs)).1 ∧
    (s.handleAll inputs).2 = (s.handleAll (sources inputs)).2 ∧
    (∀ i input, inputs[i]? = some input →
      replies[i]? = some ((s.handleAll (sources (inputs.take i))).2.handle input).reply) ∧
    (∀ i input, inputs[i]? = some input →
      (Text.trim input).toList.takeWhile (· != ' ') = ":vars".toList →
      replies[i]? = some (Reply.ofStore (s.handleAll (sources (inputs.take i))).2.store)) := by
  intro replies
  have hreply : ∀ i input, inputs[i]? = some input →
      replies[i]? = some ((s.handleAll (sources (inputs.take i))).2.handle input).reply := by
    intro i input hi
    rw [session_handleAll_sources]
    exact s.getElem?_handleAll hi
  refine ⟨s.length_replies_handleAll inputs, s.replies_handleAll_sources inputs,
    (s.session_handleAll_sources inputs).symm, hreply, ?_⟩
  intro i input hi hvars
  rw [hreply i input hi, handle, ofString_vars hvars]

end Session

end Linewise
