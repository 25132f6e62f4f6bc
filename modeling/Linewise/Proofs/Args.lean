/-
What arguments are good, and what they ask for.

* `Argument` — an option with the path that belongs to it, or the name of a file;
* `Args.AskedBy` — what a list of them asks for: the one file, the last path, and the
  options that occur;
* `Args.AskedBy.apply`, `Args.AskedBy.exists_readFrom` — what one more of them adds, and what
  is read of a list of them;
* `Args.Proper`, `Args.proper_of_readFrom` — nothing else is read;
* `Args.ofList_accepts` — so words are good exactly if they are those of such a list with one
  file at most, and its order is of no account if it has one path at most.

Design notes: the word after `--config` is a path whatever it looks like, so a list of words
cannot be cut up without reading it from the front.  The path stands in one `Argument` with
its option, and the order of these is free.
-/
import Linewise.Args
import Mathlib.Data.List.Perm.Basic

namespace Linewise

/-- An option with what belongs to it, or the name of the file to run. -/
inductive Argument
  | noComments
  | noFallback
  | verbose
  | help (short : Bool)
  | config (path : String)
  | file (name : String) (plain : name.toList.head? ≠ some '-')
deriving DecidableEq

namespace Argument

/-- The words that an argument is given as. -/
def words : Argument → List String
  | noComments => ["--no-comments"]
  | noFallback => ["--no-fallback"]
  | verbose => ["--verbose"]
  | help false => ["--help"]
  | help true => ["-h"]
  | config path => ["--config", path]
  | file name _ => [name]

/-- The file that an argument names. -/
def file? : Argument → Option String
  | file name _ => some name
  | _ => none

/-- The path of a configuration that an argument names. -/
def configPath? : Argument → Option String
  | config path => some path
  | _ => none

/-- What is asked for with one more argument. -/
def apply (given : Args) : Argument → Args
  | noComments => { given with noComments := true }
  | noFallback => { given with noFallback := true }
  | verbose => { given with verbose := true }
  | help _ => { given with help := true }
  | config path => { given with configPath := some path }
  | file name _ => { given with file := some name }

end Argument

namespace Args

/-! ### Reading on -/

/-- An argument without a hyphen before it is the file to run, if there is none yet. -/
theorem readFrom_file {given : Args} {arg : String} (rest : List String)
    (hoption : arg.toList.head? ≠ some '-') (hfile : given.file.isSome = false) :
    readFrom given (arg :: rest) = readFrom { given with file := some arg } rest := by
  have hplain : ∀ option : String, option.toList.head? = some '-' → arg ≠ option := by
    rintro option hhyphen rfl
    exact hoption hhyphen
  rw [readFrom, if_neg hoption, if_neg (by simp [hfile])]
  case x_1 => exact fun _ _ harg => absurd harg (hplain "--config" (by decide))
  case x_2 => exact fun harg => absurd harg (hplain "--config" (by decide))
  all_goals exact hplain _ (by decide)

/-- The words of an argument are read as it, unless it names a second file. -/
theorem readFrom_words {given : Args} {a : Argument} (rest : List String)
    (h : a.file? = none ∨ given.file = none) :
    readFrom given (a.words ++ rest) = readFrom (a.apply given) rest := by
  cases a with
  | noComments | noFallback | verbose | config path => rfl
  | help short => cases short <;> rfl
  | file name plain =>
    have hfile : given.file = none := h.resolve_left (by simp [Argument.file?])
    exact readFrom_file rest plain (by simp [hfile])

/-! ### What is asked for -/

/-- The arguments ask for these settings and for no others. -/
structure AskedBy (arguments : List Argument) (args : Args) : Prop where
  file : args.file.toList = arguments.filterMap Argument.file?
  configPath : args.configPath = (arguments.filterMap Argument.configPath?).getLast?
  noComments : args.noComments = true ↔ .noComments ∈ arguments
  noFallback : args.noFallback = true ↔ .noFallback ∈ arguments
  verbose : args.verbose = true ↔ .verbose ∈ arguments
  help : args.help = true ↔ ∃ short, .help short ∈ arguments

theorem askedBy_nil : AskedBy [] {} := by
  constructor <;> simp

/-- One more argument adds what it stands for, unless it names a second file. -/
theorem AskedBy.apply {arguments : List Argument} {given : Args} {a : Argument}
    (h : AskedBy arguments given) (hfile : a.file? = none ∨ given.file = none) :
    AskedBy (arguments ++ [a]) (a.apply given) := by
  obtain ⟨hgiven, hpath, hcomments, hfallback, hverbose, hhelp⟩ := h
  cases a with
  | noComments | noFallback | verbose | help short | config path | file name plain =>
    constructor <;> simp_all [Argument.apply, Argument.file?, Argument.configPath?]

/-- Where no file is named twice, the next argument names none or is the first that does. -/
theorem AskedBy.file_eq_none {before after : List Argument} {given : Args} {a : Argument}
    (h : AskedBy before given)
    (hfile : ((before ++ a :: after).filterMap Argument.file?).length ≤ 1) :
    a.file? = none ∨ given.file = none := by
  rw [List.filterMap_append, ← h.file, List.filterMap_cons] at hfile
  cases ha : a.file? with
  | none => exact Or.inl rfl
  | some name =>
    cases hgiven : given.file with
    | none => exact Or.inr rfl
    | some other =>
      rw [ha, hgiven] at hfile
      simp at hfile

/-- Arguments are read on if no file is named twice. -/
theorem AskedBy.exists_readFrom {before after : List Argument} {given : Args}
    (h : AskedBy before given)
    (hfile : ((before ++ after).filterMap Argument.file?).length ≤ 1) :
    ∃ args, readFrom given (after.flatMap Argument.words) = .ok args ∧
      AskedBy (before ++ after) args := by
  induction after generalizing before given with
  | nil => exact ⟨given, rfl, by rwa [List.append_nil]⟩
  | cons a after ih =>
    have hfirst := h.file_eq_none hfile
    rw [List.flatMap_cons, readFrom_words _ hfirst]
    rw [List.append_cons] at hfile ⊢
    exact ih (h.apply hfirst) hfile

/-- The words are those of some arguments, which name no file besides `named`, or one if that
is none. -/
def Proper (named : Option String) (words : List String) : Prop :=
  ∃ arguments : List Argument, words = arguments.flatMap Argument.words ∧
    (named.toList ++ arguments.filterMap Argument.file?).length ≤ 1

theorem proper_nil (named : Option String) : Proper named [] := ⟨[], rfl, by simp⟩

theorem Proper.option {named : Option String} {rest : List String} (h : Proper named rest)
    (a : Argument) (ha : a.file? = none) : Proper named (a.words ++ rest) := by
  obtain ⟨arguments, rfl, hfile⟩ := h
  refine ⟨a :: arguments, rfl, ?_⟩
  rwa [List.filterMap_cons, ha]

theorem Proper.file {name : String} {rest : List String} (h : Proper (some name) rest)
    (plain : name.toList.head? ≠ some '-') : Proper none (name :: rest) := by
  obtain ⟨arguments, rfl, hfile⟩ := h
  exact ⟨.file name plain :: arguments, rfl, hfile⟩

/-- Nothing but the words of arguments is read. -/
theorem proper_of_readFrom {given read : Args} {words : List String}
    (h : readFrom given words = .ok read) : Proper given.file words := by
  fun_induction readFrom given words with
  | case1 given => exact proper_nil given.file
  | case3 | case9 | case10 => exact absurd h (by simp)
  | case2 given path rest ih => exact (ih h).option (.config path) rfl
  | case4 given rest ih => exact (ih h).option .noComments rfl
  | case5 given rest ih => exact (ih h).option .noFallback rfl
  | case6 given rest ih => exact (ih h).option .verbose rfl
  | case7 given rest ih => exact (ih h).option (.help false) rfl
  | case8 given rest ih => exact (ih h).option (.help true) rfl
  | case11 given arg rest _ _ _ _ _ _ _ hoption hfile ih =>
    have hnone : given.file = none := by simpa using hfile
    rw [hnone]
    exact (ih h).file hoption

/-! ### The order of arguments -/

/-- A list with one member at most has no order. -/
theorem eq_of_perm_of_length_le {α : Type} {xs ys : List α} (h : xs.Perm ys)
    (hxs : xs.length ≤ 1) : xs = ys := by
  match xs with
  | [] => exact (List.nil_perm.mp h).symm
  | [x] => exact (List.perm_singleton.mp h.symm).symm
  | _ :: _ :: _ => exact absurd hxs (by simp)

/-- What is asked for does not depend on the order of the arguments, if they name one file
and one path at most. -/
theorem AskedBy.eq_of_perm {arguments arguments' : List Argument} {args args' : Args}
    (h : AskedBy arguments args) (h' : AskedBy arguments' args')
    (hperm : arguments.Perm arguments')
    (hfile : (arguments.filterMap Argument.file?).length ≤ 1)
    (hpath : (arguments.filterMap Argument.configPath?).length ≤ 1) : args = args' := by
  have hfiles := eq_of_perm_of_length_le (hperm.filterMap Argument.file?) hfile
  have hpaths := eq_of_perm_of_length_le (hperm.filterMap Argument.configPath?) hpath
  have hmem : ∀ a, a ∈ arguments ↔ a ∈ arguments' := fun a => hperm.mem_iff
  obtain ⟨file, path, comments, fallback, log, help⟩ := args
  obtain ⟨file', path', comments', fallback', log', help'⟩ := args'
  obtain rfl : file = file' := by
    simpa using congrArg List.head? ((h.file.trans hfiles).trans h'.file.symm)
  obtain rfl : path = path' := by
    rw [show path = _ from h.configPath, hpaths, ← h'.configPath]
  obtain rfl : comments = comments' :=
    Bool.eq_iff_iff.mpr ((h.noComments.trans (hmem _)).trans h'.noComments.symm)
  obtain rfl : fallback = fallback' :=
    Bool.eq_iff_iff.mpr ((h.noFallback.trans (hmem _)).trans h'.noFallback.symm)
  obtain rfl : log = log' :=
    Bool.eq_iff_iff.mpr ((h.verbose.trans (hmem _)).trans h'.verbose.symm)
  obtain rfl : help = help' :=
    Bool.eq_iff_iff.mpr ((h.help.trans (exists_congr fun _ => hmem _)).trans h'.help.symm)
  rfl

/-- Words are good arguments if and only if they are the words of a list of arguments, in any
order, that names one file at most; then they ask for what is in the list.  The order of the
list is of no account if it names one path at most. -/
theorem ofList_accepts :
    (∀ words, (∃ args, ofList words = .ok args) ↔
      ∃ arguments : List Argument, words = arguments.flatMap Argument.words ∧
        (arguments.filterMap Argument.file?).length ≤ 1) ∧
    (∀ arguments : List Argument, (arguments.filterMap Argument.file?).length ≤ 1 →
      ∃ args, ofList (arguments.flatMap Argument.words) = .ok args ∧ AskedBy arguments args) ∧
    ∀ arguments arguments' : List Argument, arguments.Perm arguments' →
      (arguments.filterMap Argument.file?).length ≤ 1 →
      (arguments.filterMap Argument.configPath?).length ≤ 1 →
      ofList (arguments.flatMap Argument.words) = ofList (arguments'.flatMap Argument.words) := by
  have hread : ∀ arguments : List Argument, (arguments.filterMap Argument.file?).length ≤ 1 →
      ∃ args, ofList (arguments.flatMap Argument.words) = .ok args ∧ AskedBy arguments args :=
    fun arguments hfile => askedBy_nil.exists_readFrom hfile
  refine ⟨fun words => ⟨?_, ?_⟩, hread, fun arguments arguments' hperm hfile hpath => ?_⟩
  · rintro ⟨args, h⟩
    exact proper_of_readFrom h
  · rintro ⟨arguments, rfl, hfile⟩
    obtain ⟨args, h, -⟩ := hread arguments hfile
    exact ⟨args, h⟩
  · have hfile' : (arguments'.filterMap Argument.file?).length ≤ 1 := by
      rwa [← (hperm.filterMap Argument.file?).length_eq]
    obtain ⟨args, h, hasked⟩ := hread arguments hfile
    obtain ⟨args', h', hasked'⟩ := hread arguments' hfile'
    rw [h, h', hasked.eq_of_perm hasked' hperm hfile hpath]

/-- A path that looks like an option stays with `--config`, wherever the two stand. -/
theorem ofList_accepts_hyphen :
    let main := Argument.file "main.ls" (by decide)
    let arguments := [main, .help true, .config "--verbose"]
    let arguments' := [.config "--verbose", main, .help true]
    arguments.Perm arguments' ∧ (arguments.filterMap Argument.file?).length ≤ 1 ∧
    (arguments.filterMap Argument.configPath?).length ≤ 1 ∧
    ofList ["main.ls", "-h", "--config", "--verbose"] =
      ofList ["--config", "--verbose", "main.ls", "-h"] ∧
    ∃ args, ofList ["--config", "--verbose", "main.ls", "-h"] = .ok args ∧
      args.file = some "main.ls" ∧ args.configPath = some "--verbose" ∧
      args.help = true ∧ args.verbose = false := by
  intro main arguments arguments'
  have hperm : arguments.Perm arguments' := by decide
  have hfile : (arguments.filterMap Argument.file?).length ≤ 1 := by decide
  have hpath : (arguments.filterMap Argument.configPath?).length ≤ 1 := by decide
  obtain ⟨-, hread, horder⟩ := ofList_accepts
  obtain ⟨args, hargs, hasked⟩ := hread arguments hfile
  have heq := horder arguments arguments' hperm hfile hpath
  have hverbose : ¬ args.verbose = true := fun h => absurd (hasked.verbose.mp h) (by decide)
  refine ⟨hperm, hfile, hpath, heq, args, heq.symm.trans hargs, ?_, hasked.configPath,
    hasked.help.mpr ⟨true, by decide⟩, by simpa using hverbose⟩
  exact Option.toList_eq_singleton_iff.mp hasked.file

end Args

end Linewise
