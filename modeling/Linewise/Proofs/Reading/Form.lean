/-
Reading back the list form of a tree.

* `Phrase.IsRead` — the phrases that lines spell, with `IsRead.wellFormed`: their leaves have
  a source text;
* `Expr.formWord`, `Phrase.formWord` — the list form of a tree as tokens;
* `Phrase.WellFormed.lineWord_form` — the list form of a well-formed tree is a line of these
  tokens;
* `Expr.WellFormed.append_cancel` — which say what the tree is and where it ends;
* `Phrase.eq_of_form_eq` — so no two phrases that lines spell have one list form.

Design notes: the list form is no phrase of the language, but it is made of the tokens of the
language, so the scan takes it apart.  The word for a negation is a name there, and a quoted
text is the token of another text, the one with its escapes.  What is left is a question
about tokens: an operator is known by its sign and by how many operands stand before the
parenthesis that closes them.
-/
import Linewise.Expr.Form
import Linewise.Proofs.Reading.Source
import Linewise.Proofs.Text.Quoted

namespace Linewise

/-! ### Phrases that lines spell -/

/-- The statements whose leaves have a source text. -/
def Statement.WellFormed : Statement → Prop
  | assign name value => Identifier name ∧ value.WellFormed
  | print value => value.WellFormed

/-- The phrases whose leaves have a source text. -/
def Phrase.WellFormed : Phrase → Prop
  | statement s => s.WellFormed
  | expression e => e.WellFormed

/-- Some line spells the phrase as a whole, within some limit. -/
inductive Phrase.IsRead : Phrase → Prop
  | statement {limit : Int} {line : String} {s : Statement}
      (h : Statement.ofLine limit line = .ok s) : IsRead (.statement s)
  | expression {limit : Int} {line : String} {e : Expr}
      (h : Expr.ofLine limit line = .ok e) : IsRead (.expression e)

/-- The tree of well-formed tokens is well-formed, if all numbers among them are numerals. -/
theorem Derivation.wellFormed_tree {n : Nonterminal} (d : Derivation n)
    (hword : ∀ k ∈ d.word, k.WellFormed) (hnum : Readable d.word) : d.tree.WellFormed := by
  induction d with
  | operand d ih => exact ih hword hnum
  | fold left sign op spelled right ihleft ihright =>
    obtain ⟨hleft, hright⟩ := List.forall_mem_append.mp hword
    obtain ⟨hnumleft, hnumright⟩ := readable_append.mp hnum
    exact ⟨ihleft hleft hnumleft, ihright (List.forall_mem_cons.mp hright).2
      ((readable_cons (Chain.operator_ne_number spelled)).mp hnumright)⟩
  | negation d ih =>
    exact ih (List.forall_mem_cons.mp hword).2 ((readable_cons (by simp)).mp hnum)
  | unnegated d ih => exact ih hword hnum
  | signed sign op spelled d ih =>
    exact ih (List.forall_mem_cons.mp hword).2
      ((readable_cons (Kind.sign_ne_number spelled)).mp hnum)
  | unsigned d ih => exact ih hword hnum
  | number s =>
    have htext : NumberText s.toList := hword (.number s) List.mem_cons_self
    exact Expr.wellFormed_number htext ((Number.isSome_read?_iff htext).mp (readable_number.mp hnum))
  | boolean b => trivial
  | text s => exact hword (.text s) List.mem_cons_self
  | group d ih =>
    have hinner := List.forall_mem_append.mp (List.forall_mem_cons.mp hword).2
    have hnuminner := readable_append.mp ((readable_cons (by simp)).mp hnum)
    exact ih hinner.1 hnuminner.1
  | name s => exact Kind.wellFormed_name_iff.mp (hword (.name s) List.mem_cons_self)

theorem Statement.wellFormed_of_ofLine {limit : Int} {line : String} {s : Statement}
    (h : Statement.ofLine limit line = .ok s) : s.WellFormed := by
  obtain ⟨d, hline, -, hnum, -, rfl⟩ := Statement.ofLine_eq_ok_iff.mp h
  obtain ⟨hopening, hvalue⟩ :=
    List.forall_mem_append.mp (List.forall_mem_append.mp hline.wellFormed).1
  have htree := d.value.wellFormed_tree hvalue hnum
  cases d with
  | assign name value =>
    exact ⟨Kind.wellFormed_name_iff.mp (hopening (.name name) List.mem_cons_self), htree⟩
  | print value => exact htree

theorem Expr.wellFormed_of_ofLine {limit : Int} {line : String} {e : Expr}
    (h : Expr.ofLine limit line = .ok e) : e.WellFormed := by
  obtain ⟨d, hline | hline, -, hnum, -, rfl⟩ := Expr.ofLine_eq_ok_iff.mp h
  · exact d.wellFormed_tree hline.wellFormed hnum
  · exact d.wellFormed_tree (List.forall_mem_append.mp hline.wellFormed).1 hnum

theorem Phrase.IsRead.wellFormed {p : Phrase} (h : p.IsRead) : p.WellFormed := by
  cases h with
  | statement h => exact Statement.wellFormed_of_ofLine h
  | expression h => exact Expr.wellFormed_of_ofLine h

/-! ### List forms as tokens -/

/-- The token of an operator before one operand in a list form, where a negation is a word. -/
def UnaryOp.formKind : UnaryOp → Kind
  | plus => .plus
  | minus => .minus
  | not => .name "not"

/-- What a list form is as tokens. -/
def listWord (operator : Kind) (operands : List (List Kind)) : List Kind :=
  .leftParen :: (operator :: operands.flatten ++ [.rightParen])

/-- The contents of a text with its escapes. -/
def Text.escaped (contents : String) : String := String.ofList (contents.toList.flatMap escape)

/-- The list form of an expression as tokens. -/
def Expr.formWord : Expr → List Kind
  | number spelling _ => [.number spelling]
  | boolean value => [.boolean value]
  | text contents => [.text (Text.escaped contents)]
  | var name => [.name name]
  | unary op operand => listWord op.formKind [operand.formWord]
  | binary op left right => listWord op.kind [left.formWord, right.formWord]

/-- The list form of a statement as tokens. -/
def Statement.formWord : Statement → List Kind
  | assign name value => listWord .assign [[.name name], value.formWord]
  | print value => listWord .print [value.formWord]

/-- The list form of a phrase as tokens. -/
def Phrase.formWord : Phrase → List Kind
  | statement s => s.formWord
  | expression e => e.formWord

theorem Text.escaped_injective {s t : String} (h : escaped s = escaped t) : s = t :=
  String.ext (flatMap_escape_injective (String.ofList_injective h))

theorem Kind.wellFormed_not : (name "not").WellFormed :=
  ⟨rfl, 'n', ['o', 't'], rfl, rfl, List.all_eq_true.mp rfl⟩

theorem UnaryOp.lineWord_symbol (op : UnaryOp) : LineWord op.symbol [op.formKind] := by
  have hspelling : op.formKind.spelling = op.symbol := by cases op <;> rfl
  rw [← hspelling]
  refine lineWord_spelling ?_
  cases op with
  | plus => trivial
  | minus => trivial
  | not => exact Kind.wellFormed_not

theorem lineWord_intercalate {operands : List String} {words : List (List Kind)} {text : String}
    {word : List Kind} (h : LineWord text word) (hoperands : List.Forall₂ LineWord operands words) :
    LineWord (" ".intercalate (text :: operands)) (word ++ words.flatten) := by
  induction hoperands generalizing text word with
  | nil =>
    rw [List.flatten_nil, List.append_nil]
    exact h
  | cons hfirst hrest ih =>
    rw [String.intercalate_cons_cons, List.flatten_cons]
    exact h.spaced (ih hfirst)

theorem LineWord.listForm {operands : List String} {words : List (List Kind)} {operator : String}
    {k : Kind} (h : LineWord operator [k]) (hoperands : List.Forall₂ LineWord operands words) :
    LineWord (listForm operator operands) (listWord k words) :=
  (lineWord_intercalate h hoperands).group

/-- A text with its escapes has no more quotes than the text has. -/
theorem Text.lineWord_quote {contents : String} (h : '"' ∉ contents.toList) :
    LineWord (quote contents) [.text (escaped contents)] := by
  have hquote : quote contents = (Kind.text (escaped contents)).spelling := by
    apply String.ext
    simp [quote, escaped, Kind.spelling]
  have hwellFormed : (Kind.text (escaped contents)).WellFormed := by
    rw [Kind.WellFormed, escaped, String.toList_ofList, List.mem_flatMap]
    rintro ⟨c, hc, hmem⟩
    refine quote_notMem_escape ?_ hmem
    rintro rfl
    exact h hc
  rw [hquote]
  exact lineWord_spelling hwellFormed

/-- The list form of a well-formed expression is a line of these tokens. -/
theorem Expr.WellFormed.lineWord_form {e : Expr} (h : e.WellFormed) : LineWord e.form e.formWord := by
  induction e with
  | number spelling value => exact lineWord_spelling (k := .number spelling) h.1
  | boolean value =>
    have hspelling : (boolean value).form = (Kind.boolean value).spelling := by cases value <;> rfl
    rw [hspelling]
    exact lineWord_spelling trivial
  | text contents => exact Text.lineWord_quote h
  | var name => exact lineWord_spelling (Identifier.wellFormed h)
  | unary op operand ih => exact op.lineWord_symbol.listForm (.cons (ih h) .nil)
  | binary op left right ihleft ihright =>
    exact op.lineWord_symbol.listForm (.cons (ihleft h.1) (.cons (ihright h.2) .nil))

theorem Statement.WellFormed.lineWord_form {s : Statement} (h : s.WellFormed) :
    LineWord s.form s.formWord := by
  cases s with
  | assign name value =>
    have hsign : LineWord "=" [.assign] := lineWord_spelling (k := .assign) trivial
    exact hsign.listForm
      (.cons (lineWord_spelling (Identifier.wellFormed h.1)) (.cons h.2.lineWord_form .nil))
  | print value =>
    have hword : LineWord "print" [.print] := lineWord_spelling (k := .print) trivial
    exact hword.listForm (.cons (Expr.WellFormed.lineWord_form h) .nil)

theorem Phrase.WellFormed.lineWord_form {p : Phrase} (h : p.WellFormed) :
    LineWord p.form p.formWord := by
  cases p with
  | statement s => exact Statement.WellFormed.lineWord_form h
  | expression e => exact Expr.WellFormed.lineWord_form h

/-! ### What the tokens say -/

theorem UnaryOp.formKind_injective {op op' : UnaryOp} (h : op.formKind = op'.formKind) :
    op = op' := by
  cases op <;> cases op' <;> first | rfl | exact absurd h (by decide)

theorem BinaryOp.kind_injective {op op' : BinaryOp} (h : op.kind = op'.kind) : op = op' := by
  have hop := op.operator?_kind
  have hop' := op'.operator?_kind
  rw [Chain.operator?_eq_some_iff] at hop hop'
  rw [h] at hop
  exact Option.some.inj (hop.1.symm.trans hop'.1)

theorem listWord_one_append (k : Kind) (w more : List Kind) :
    listWord k [w] ++ more = .leftParen :: k :: (w ++ .rightParen :: more) := by
  simp [listWord]

theorem listWord_two_append (k : Kind) (v w more : List Kind) :
    listWord k [v, w] ++ more = .leftParen :: k :: (v ++ (w ++ .rightParen :: more)) := by
  simp [listWord]

namespace Expr

/-- No operand starts with a closing parenthesis. -/
theorem rightParen_cons_ne (e : Expr) (more more' : List Kind) :
    .rightParen :: more ≠ e.formWord ++ more' := by
  cases e <;> simp [formWord, listWord]

/-- The tokens of a list form say what the tree is, whatever follows them, and where it
ends. -/
theorem WellFormed.append_cancel {e e' : Expr} (he : e.WellFormed) (he' : e'.WellFormed)
    {more more' : List Kind} (h : e.formWord ++ more = e'.formWord ++ more') :
    e = e' ∧ more = more' := by
  -- By induction on the first tree: the first token tells the leaves apart, and the operator
  -- with the end of the first operand tells the operations apart.
  induction e generalizing e' more more' with
  | number s x =>
    cases e' with
    | number s' x' =>
      obtain ⟨rfl, rfl⟩ : s = s' ∧ more = more' := by simpa [formWord] using h
      obtain rfl := Option.some.inj (he.2.2.symm.trans he'.2.2)
      exact ⟨rfl, rfl⟩
    | _ => exact absurd h (by simp [formWord, listWord])
  | boolean b =>
    cases e' with
    | boolean b' => simpa [formWord] using h
    | _ => exact absurd h (by simp [formWord, listWord])
  | text contents =>
    cases e' with
    | text contents' =>
      obtain ⟨hescaped, rfl⟩ : Text.escaped contents = Text.escaped contents' ∧ more = more' := by
        simpa [formWord] using h
      rw [Text.escaped_injective hescaped]
      exact ⟨rfl, rfl⟩
    | _ => exact absurd h (by simp [formWord, listWord])
  | var name =>
    cases e' with
    | var name' => simpa [formWord] using h
    | _ => exact absurd h (by simp [formWord, listWord])
  | unary op operand ih =>
    cases e' with
    | unary op' operand' =>
      have hoperand' : operand'.WellFormed := he'
      rw [formWord, formWord, listWord_one_append, listWord_one_append] at h
      obtain ⟨hop, hrest⟩ := List.cons.inj (List.cons.inj h).2
      obtain ⟨rfl, hmore⟩ := ih he hoperand' hrest
      rw [UnaryOp.formKind_injective hop]
      exact ⟨rfl, (List.cons.inj hmore).2⟩
    | binary op' left' right' =>
      rw [formWord, formWord, listWord_one_append, listWord_two_append] at h
      obtain ⟨-, hmore⟩ := ih he he'.1 (List.cons.inj (List.cons.inj h).2).2
      exact absurd hmore (right'.rightParen_cons_ne _ _)
    | _ => exact absurd h (by simp [formWord, listWord])
  | binary op left right ihleft ihright =>
    cases e' with
    | unary op' operand' =>
      have hoperand' : operand'.WellFormed := he'
      rw [formWord, formWord, listWord_two_append, listWord_one_append] at h
      obtain ⟨-, hmore⟩ := ihleft he.1 hoperand' (List.cons.inj (List.cons.inj h).2).2
      exact absurd hmore.symm (right.rightParen_cons_ne _ _)
    | binary op' left' right' =>
      rw [formWord, formWord, listWord_two_append, listWord_two_append] at h
      obtain ⟨hop, hrest⟩ := List.cons.inj (List.cons.inj h).2
      obtain ⟨rfl, hright⟩ := ihleft he.1 he'.1 hrest
      obtain ⟨rfl, hmore⟩ := ihright he.2 he'.2 hright
      rw [BinaryOp.kind_injective hop]
      exact ⟨rfl, (List.cons.inj hmore).2⟩
    | _ => exact absurd h (by simp [formWord, listWord])

theorem WellFormed.eq_of_formWord_eq {e e' : Expr} (he : e.WellFormed) (he' : e'.WellFormed)
    (h : e.formWord = e'.formWord) : e = e' :=
  (he.append_cancel he' (congrArg (· ++ []) h)).1

end Expr

theorem Statement.WellFormed.eq_of_formWord_eq {s s' : Statement} (hs : s.WellFormed)
    (hs' : s'.WellFormed) (h : s.formWord = s'.formWord) : s = s' := by
  cases s with
  | assign name value =>
    cases s' with
    | assign name' value' =>
      obtain ⟨rfl, hvalue⟩ : name = name' ∧ value.formWord = value'.formWord := by
        simpa [formWord, listWord] using h
      rw [hs.2.eq_of_formWord_eq hs'.2 hvalue]
    | print value' => exact absurd h (by simp [formWord, listWord])
  | print value =>
    cases s' with
    | assign name' value' => exact absurd h (by simp [formWord, listWord])
    | print value' =>
      have hvalue : value.formWord = value'.formWord := by simpa [formWord, listWord] using h
      rw [Expr.WellFormed.eq_of_formWord_eq hs hs' hvalue]

/-- The word of a statement is no operator. -/
theorem Statement.formWord_ne (s : Statement) (e : Expr) : s.formWord ≠ e.formWord := by
  have hunary : ∀ op : UnaryOp, op.formKind ≠ .assign ∧ op.formKind ≠ .print := by
    intro op
    cases op <;> decide
  have hbinary : ∀ op : BinaryOp, op.kind ≠ .assign ∧ op.kind ≠ .print := by
    rintro ((_ | _ | _ | _) | (_ | _ | _ | _) | (_ | _)) <;> decide
  cases s with
  | assign name value =>
    cases e with
    | unary op operand => simp [formWord, Expr.formWord, listWord, (hunary op).1.symm]
    | binary op left right => simp [formWord, Expr.formWord, listWord, (hbinary op).1.symm]
    | _ => simp [formWord, Expr.formWord, listWord]
  | print value =>
    cases e with
    | unary op operand => simp [formWord, Expr.formWord, listWord, (hunary op).2.symm]
    | binary op left right => simp [formWord, Expr.formWord, listWord, (hbinary op).2.symm]
    | _ => simp [formWord, Expr.formWord, listWord]

theorem Phrase.WellFormed.eq_of_formWord_eq {p p' : Phrase} (hp : p.WellFormed)
    (hp' : p'.WellFormed) (h : p.formWord = p'.formWord) : p = p' := by
  cases p with
  | statement s =>
    cases p' with
    | statement s' => rw [Statement.WellFormed.eq_of_formWord_eq hp hp' h]
    | expression e' => exact absurd h (s.formWord_ne e')
  | expression e =>
    cases p' with
    | statement s' => exact absurd h.symm (s'.formWord_ne e)
    | expression e' => rw [Expr.WellFormed.eq_of_formWord_eq hp hp' h]

/-! ### List forms -/

/-- Two phrases that lines spell, whatever the lines and the limits, are the same if their
list forms are. -/
theorem Phrase.eq_of_form_eq {p p' : Phrase} (hp : p.IsRead) (hp' : p'.IsRead)
    (h : p.form = p'.form) : p = p' := by
  have hline : LineWord p.form p.formWord := hp.wellFormed.lineWord_form
  have hline' : LineWord p.form p'.formWord := by
    rw [h]
    exact hp'.wellFormed.lineWord_form
  exact hp.wellFormed.eq_of_formWord_eq hp'.wellFormed (hline.unique hline')

/-- Parentheses leave no trace in the list form, a negation looks like a name there, and the
minus of a number stays with it. -/
theorem Phrase.eq_of_form_eq_negation : ∃ e e' : Expr,
    Expr.ofLine 3 "! not == -1" = .ok e ∧ Expr.ofLine 200 "( ! ( not ) == ( -1 ) ) ;" = .ok e' ∧
    e.form = "(not (== not -1))" ∧ e'.form = "(not (== not -1))" ∧
    Phrase.expression e = .expression e' := by
  have hnumber : (Kind.number "-1").WellFormed := ⟨'1', [], rfl, by simp, Or.inr rfl⟩
  have hwellFormed : ∀ k ∈ [Kind.not, .name "not", .equal, .number "-1"], k.WellFormed := by
    simp only [List.forall_mem_cons]
    exact ⟨trivial, Kind.wellFormed_not, trivial, hnumber, by simp⟩
  have hwellFormed' : ∀ k ∈ [Kind.leftParen, .not, .leftParen, .name "not", .rightParen, .equal,
      .leftParen, .number "-1", .rightParen, .rightParen, .semicolon], k.WellFormed := by
    simp only [List.forall_mem_cons]
    exact ⟨trivial, trivial, trivial, Kind.wellFormed_not, trivial, trivial, trivial, hnumber,
      trivial, trivial, trivial, by simp⟩
  have hstream := TokenStream.ofString_spelled hwellFormed
  have hstream' := TokenStream.ofString_spelled hwellFormed'
  have hspelled : String.ofList (spelled [.not, .name "not", .equal, .number "-1"]) =
      "! not == -1" := rfl
  have hspelled' : String.ofList (spelled [.leftParen, .not, .leftParen, .name "not", .rightParen,
      .equal, .leftParen, .number "-1", .rightParen, .rightParen, .semicolon]) =
      "( ! ( not ) == ( -1 ) ) ;" := rfl
  rw [hspelled] at hstream
  rw [hspelled'] at hstream'
  let e : Expr := .unary .not
    (.binary (.compare .eq) (.var "not") (.number "-1" (Number.ofSpelling "-1")))
  have hread : Expr.ofLine 3 "! not == -1" = .ok e := by
    rw [Expr.ofLine, Reader.ofString, hstream]
    rfl
  have hread' : Expr.ofLine 200 "( ! ( not ) == ( -1 ) ) ;" = .ok e := by
    rw [Expr.ofLine, Reader.ofString, hstream']
    rfl
  have hform : e.form = "(not (== not -1))" := rfl
  exact ⟨e, e, hread, hread', hform, hform,
    Phrase.eq_of_form_eq (.expression hread) (.expression hread') rfl⟩

end Linewise
